import Timekeeping.Timer
import Timekeeping.Timing.Reading
import Timekeeping.Proofs.Time.Ordering

/-!
Which functions give time values whose fraction is less than a second. All that
split a total do, whatever they are applied to, and so do those that read words.
The fields of a JSON are taken as they stand, so a value that is read from one is
as normal as it was written.
-/
namespace Timekeeping

/-- Whole seconds have no fraction. -/
theorem Ticks.whole_normal (n : Int64) : Normal ⟨n, 0⟩ := by
  change ((0 : UInt64).toNat : Int) < picosPerSecond
  decide

namespace Json

/-- The seconds and the picoseconds stand in a JSON as the fields of a time value. -/
def Writes (j : Json) (secs : Int64) (picos : UInt64) : Prop :=
  ∃ a b, j.allFields? ["secs", "picos"] = some [a, b] ∧
    a.int64? = some secs ∧ b.uint64? = some picos

/-- Where a JSON has the fields of a time value: it is one itself, or a timing or a trigger that holds
one. -/
inductive Holds : Json → Json → Prop
  | value (fields : Json) : Holds fields fields
  | delay (fields : Json) : Holds (.object [(some "relative", fields)]) fields
  | time (fields : Json) : Holds (.object [(some "at", fields)]) fields
  | idleDelay (fields : Json) : Holds (.object [(some "after_idle", fields)]) fields

/-- The fractions in a JSON are less than a second. -/
def Proper (j : Json) : Prop :=
  ∀ fields secs picos, j.Holds fields → fields.Writes secs picos → Ticks.Normal ⟨secs, picos⟩

end Json

/-- The fields are taken as they are written. -/
theorem Ticks.ofJson?_eq_some_iff {j : Json} {t : Ticks} :
    ofJson? j = some t ↔ j.Writes t.secs t.picos := by
  constructor
  · intro h
    unfold ofJson? at h
    obtain ⟨fields, hfields, h⟩ := Option.bind_eq_some_iff.mp h
    split at h
    · next a b =>
      obtain ⟨secs, hsecs, h⟩ := Option.bind_eq_some_iff.mp h
      obtain ⟨picos, hpicos, h⟩ := Option.bind_eq_some_iff.mp h
      cases h
      exact ⟨a, b, hfields, hsecs, hpicos⟩
    · cases h
  · rintro ⟨a, b, hfields, hsecs, hpicos⟩
    unfold ofJson?
    simp only [hfields, hsecs, hpicos, Option.bind_eq_bind, Option.bind_some]

theorem Json.Proper.normal_of_ofJson? {j fields : Json} {t : Ticks} (hj : j.Proper)
    (hholds : j.Holds fields) (h : Ticks.ofJson? fields = some t) : t.Normal :=
  hj fields t.secs t.picos hholds (Ticks.ofJson?_eq_some_iff.mp h)

namespace Duration

theorem eq_iff_total_eq {a b : Duration} (ha : a.Normal) (hb : b.Normal) :
    a = b ↔ a.total = b.total := by
  rw [← Ticks.eq_iff_total_eq ha hb, Duration.mk.injEq]

theorem ofTotal_normal (n : Int) : (ofTotal n).Normal := Ticks.ofTotal_normal n

theorem ofSeconds_normal (n : Int64) : (ofSeconds n).Normal := Ticks.whole_normal n

theorem normal_of_ofSecondsReal? {x : Binary64} {d : Duration} (h : ofSecondsReal? x = some d) :
    d.Normal := by
  unfold ofSecondsReal? at h
  split at h
  · split at h
    · cases h
    · dsimp only at h
      split at h
      · cases h
        exact ofTotal_normal _
      · cases h
  · cases h

end Duration

namespace Instant

theorem eq_iff_total_eq {s t : Instant} (hs : s.Normal) (ht : t.Normal) :
    s = t ↔ s.total = t.total := by
  rw [← Ticks.eq_iff_total_eq hs ht, Instant.mk.injEq]

theorem ofTotal_normal (n : Int) : (ofTotal n).Normal := Ticks.ofTotal_normal n

theorem ofSeconds_normal (n : Int64) : (ofSeconds n).Normal := Ticks.whole_normal n

theorem normal_of_ofParts? {secs : Int64} {frac hz : UInt64} {t : Instant}
    (h : ofParts? secs frac hz = some t) : t.Normal := by
  unfold ofParts? at h
  split at h
  · cases h
  · cases h
    exact ofTotal_normal _

theorem normal_of_nextAligned? {now t : Instant} {period : Duration}
    (h : now.nextAligned? period = some t) : t.Normal := by
  unfold nextAligned? at h
  split at h
  · obtain ⟨n, -, rfl⟩ := Option.map_eq_some_iff.mp h
    exact ofTotal_normal n
  · cases h

theorem normal_of_nextAlignedReal? {now t : Instant} {period : Binary64}
    (h : now.nextAlignedReal? period = some t) : t.Normal := by
  unfold nextAlignedReal? at h
  obtain ⟨⟨step, factor⟩, -, h⟩ := Option.bind_eq_some_iff.mp h
  obtain ⟨ticks, -, h⟩ := Option.bind_eq_some_iff.mp h
  obtain ⟨next, -, h⟩ := Option.bind_eq_some_iff.mp h
  cases h
  exact ofTotal_normal _

end Instant

namespace Trigger

/-- The fraction of the trigger's key is less than a second. -/
def Normal : Trigger → Prop
  | onClock time => time.Normal
  | afterIdle delay => delay.Normal

instance (trigger : Trigger) : Decidable trigger.Normal :=
  match trigger with
  | .onClock time => inferInstanceAs (Decidable time.toTicks.Normal)
  | .afterIdle delay => inferInstanceAs (Decidable delay.toTicks.Normal)

theorem normal_shift (trigger : Trigger) (delta : Duration) : (trigger.shift delta).Normal := by
  cases trigger with
  | onClock time => exact Instant.ofTotal_normal _
  | afterIdle delay => exact Duration.ofTotal_normal _

theorem normal_of_ofJson? {j : Json} {trigger : Trigger} (hj : j.Proper)
    (h : ofJson? j = some trigger) : trigger.Normal := by
  unfold ofJson? at h
  split at h
  · obtain ⟨t, ht, rfl⟩ := Option.map_eq_some_iff.mp h
    exact hj.normal_of_ofJson? (.time _) ht
  · obtain ⟨t, ht, rfl⟩ := Option.map_eq_some_iff.mp h
    exact hj.normal_of_ofJson? (.idleDelay _) ht
  · cases h

end Trigger

namespace Civil

theorem normal_of_dated? {now t : Instant} (h : dated? now = some t) : t.Normal := by
  unfold dated? at h
  split at h
  · cases h
    exact Instant.ofTotal_normal _
  · cases h

theorem normal_of_atClock {now t : Instant} {offset : Int} {hour minute : Nat}
    (h : atClock now offset hour minute = .ok t) : t.Normal := by
  unfold atClock at h
  dsimp only at h
  split_ifs at h
  cases h
  exact Instant.ofTotal_normal _

end Civil

namespace Timing

/-- The time value in the timing is normal, if it has one. -/
def Normal : Timing → Prop
  | relative delay => delay.Normal
  | instant t => t.Normal
  | _ => True

variable {timing : Timing} {d : Duration}

theorem normal_of_sumGroups? {total : Duration} {parts : List Token} (htotal : total.Normal)
    (h : sumGroups? total parts = some d) : d.Normal := by
  induction total, parts using sumGroups?.induct with
  | case1 total =>
    cases h
    exact htotal
  | case2 total count word rest ih =>
    unfold sumGroups? at h
    obtain ⟨group, -, h⟩ := Option.bind_eq_some_iff.mp h
    exact ih group (Duration.ofTotal_normal _) h
  | case3 total word rest ih =>
    unfold sumGroups? at h
    obtain ⟨group, -, h⟩ := Option.bind_eq_some_iff.mp h
    exact ih group (Duration.ofTotal_normal _) h
  | case4 total parts =>
    simp [sumGroups?] at h

theorem normal_of_readWords? {cs : List Char} (h : readWords? cs = some d) : d.Normal := by
  unfold readWords? at h
  obtain ⟨tokens, -, h⟩ := Option.bind_eq_some_iff.mp h
  dsimp only at h
  split at h
  · cases h
  · exact normal_of_sumGroups? (Duration.ofSeconds_normal 0) h

theorem normal_of_ofSeconds {x : Binary64} (h : ofSeconds x = .ok timing) : timing.Normal := by
  unfold ofSeconds at h
  split at h
  · next d hd =>
    cases h
    exact Duration.normal_of_ofSecondsReal? hd
  · cases h

theorem normal_of_read {s : String} (h : read s = .ok timing) : timing.Normal := by
  unfold read at h
  dsimp only at h
  split at h
  · cases h
    trivial
  · split at h
    · cases h
      trivial
    · split at h
      · exact normal_of_ofSeconds h
      · split at h
        · next d hd =>
          cases h
          exact normal_of_readWords? hd
        · cases h

theorem normal_of_ofForm? {form : String} {fields : Json}
    (hfields : form = "relative" ∨ form = "at" → ∀ {t}, Ticks.ofJson? fields = some t → t.Normal)
    (h : ofForm? form fields = some timing) : timing.Normal := by
  unfold ofForm? at h
  split_ifs at h with hnow hnext hdelay htime hcomponents hclock
  · split at h <;> cases h
    trivial
  · split at h <;> cases h
    trivial
  · obtain ⟨t, ht, rfl⟩ := Option.map_eq_some_iff.mp h
    exact hfields (.inl hdelay) ht
  · obtain ⟨t, ht, rfl⟩ := Option.map_eq_some_iff.mp h
    exact hfields (.inr htime) ht
  · obtain ⟨values, -, h⟩ := Option.bind_eq_some_iff.mp h
    split at h
    · obtain ⟨secs, -, h⟩ := Option.bind_eq_some_iff.mp h
      obtain ⟨micros, -, h⟩ := Option.bind_eq_some_iff.mp h
      obtain ⟨picos, -, h⟩ := Option.bind_eq_some_iff.mp h
      cases h
      trivial
    · cases h
  · obtain ⟨values, -, h⟩ := Option.bind_eq_some_iff.mp h
    split at h
    · obtain ⟨hour, -, h⟩ := Option.bind_eq_some_iff.mp h
      obtain ⟨minute, -, h⟩ := Option.bind_eq_some_iff.mp h
      cases h
      trivial
    · cases h

theorem normal_of_ofJson? {j : Json} (hj : j.Proper) (h : ofJson? j = some timing) :
    timing.Normal := by
  unfold ofJson? at h
  split at h
  · refine normal_of_ofForm? ?_ h
    intro _ t ht
    cases ht
  · next form fields =>
    refine normal_of_ofForm? ?_ h
    rintro (rfl | rfl) t ht
    · exact hj.normal_of_ofJson? (.delay fields) ht
    · exact hj.normal_of_ofJson? (.time fields) ht
  · cases h

theorem normal_of_resolve {now t : Instant} {offset : Int} {interval : Option Duration}
    (htiming : timing.Normal) (hnow : now.Normal)
    (h : timing.resolve now offset interval = .ok t) : t.Normal := by
  cases timing with
  | now =>
    cases h
    exact hnow
  | relative delay =>
    cases h
    exact Instant.ofTotal_normal _
  | components secs micros picos =>
    cases h
    exact Instant.ofTotal_normal _
  | instant time =>
    cases h
    exact htiming
  | clockTime hour minute =>
    unfold resolve at h
    dsimp only at h
    split at h
    · next hclock =>
      cases h
      exact Civil.normal_of_atClock hclock
    · cases h
    · cases h
  | nextMultiple =>
    unfold resolve at h
    dsimp only at h
    split at h
    · next hnext =>
      cases h
      obtain ⟨period, -, hnext⟩ := Option.bind_eq_some_iff.mp hnext
      exact Instant.normal_of_nextAligned? hnext
    · cases h

theorem normal_of_delay? (htiming : timing.Normal) (h : timing.delay? = some d) : d.Normal := by
  cases timing with
  | now =>
    cases h
    exact Duration.ofSeconds_normal 0
  | relative delay =>
    cases h
    exact htiming
  | components secs micros picos =>
    cases h
    exact Duration.ofTotal_normal _
  | instant time => cases h
  | clockTime hour minute => cases h
  | nextMultiple => cases h

theorem delay?_of_waitWhenIdle (h : timing.waitWhenIdle = .ok d) : timing.delay? = some d := by
  unfold waitWhenIdle at h
  split at h
  · cases h
  · next delay hdelay =>
    split at h
    · cases h
    · cases h
      exact hdelay

end Timing
end Timekeeping
