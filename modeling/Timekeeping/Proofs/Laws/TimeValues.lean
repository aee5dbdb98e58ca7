import Timekeeping.Proofs.Time.Normality

/-!
The time values that a program can get, from whatever source. Constructors, arithmetic and
conversions give values whose fraction is less than a second, and these are ordered as their
totals are. A JSON gives the value that is written there. So the order of the values that a
program can get is that of their totals as long as no JSON which it reads has a fraction of a
second or more, and not longer.
-/
namespace Timekeeping

section Obtainable

variable (Reads : Json → Prop)

mutual

/-- A program that reads no JSON but those that `Reads` allows can get the span. -/
inductive Duration.Obtainable : Duration → Prop
  | zero : Duration.Obtainable .zero
  | ofTotal (n : Int) : Duration.Obtainable (.ofTotal n)
  | ofSeconds (n : Int64) : Duration.Obtainable (.ofSeconds n)
  | ofMillis (n : Int64) : Duration.Obtainable (.ofMillis n)
  | ofComponents (secs micros picos : Int64) :
    Duration.Obtainable (.ofComponents secs micros picos)
  | ofNanos (n : Nat) : Duration.Obtainable (.ofNanos n)
  | ofSecondsReal {x d} (h : Duration.ofSecondsReal? x = some d) : Duration.Obtainable d
  | ofWords {cs d} (h : Timing.readWords? cs = some d) : Duration.Obtainable d
  | ofJson {j t} (hread : Reads j) (h : Ticks.ofJson? j = some t) : Duration.Obtainable ⟨t⟩
  | add {a b} (ha : Duration.Obtainable a) (hb : Duration.Obtainable b) :
    Duration.Obtainable (a + b)
  | sub {a b} (ha : Duration.Obtainable a) (hb : Duration.Obtainable b) :
    Duration.Obtainable (a - b)
  | neg {a} (ha : Duration.Obtainable a) : Duration.Obtainable (-a)
  | times {a} (ha : Duration.Obtainable a) (count : Int) : Duration.Obtainable (a.times count)
  | since {t s} (ht : Instant.Obtainable t) (hs : Instant.Obtainable s) :
    Duration.Obtainable (t - s)
  | field {d} (h : Timing.Obtainable (.relative d)) : Duration.Obtainable d
  | key {d} (h : Trigger.Obtainable (.afterIdle d)) : Duration.Obtainable d
  | wait {timing d} (htiming : Timing.Obtainable timing) (h : timing.waitWhenIdle = .ok d) :
    Duration.Obtainable d

/-- The same of an instant. -/
inductive Instant.Obtainable : Instant → Prop
  | epoch : Instant.Obtainable .epoch
  | ofTotal (n : Int) : Instant.Obtainable (.ofTotal n)
  | ofSeconds (n : Int64) : Instant.Obtainable (.ofSeconds n)
  | ofMicros (secs : Int64) (micros : UInt32) : Instant.Obtainable (.ofMicros secs micros)
  | ofNanos (n : Int) : Instant.Obtainable (.ofNanos n)
  | ofParts {secs frac hz t} (h : Instant.ofParts? secs frac hz = some t) : Instant.Obtainable t
  | ofJson {j t} (hread : Reads j) (h : Ticks.ofJson? j = some t) : Instant.Obtainable ⟨t⟩
  | add {t d} (ht : Instant.Obtainable t) (hd : Duration.Obtainable d) : Instant.Obtainable (t + d)
  | sub {t d} (ht : Instant.Obtainable t) (hd : Duration.Obtainable d) : Instant.Obtainable (t - d)
  | dated {s t} (hs : Instant.Obtainable s) (h : Civil.dated? s = some t) : Instant.Obtainable t
  | nextAligned {s period t} (hs : Instant.Obtainable s) (hperiod : Duration.Obtainable period)
    (h : s.nextAligned? period = some t) : Instant.Obtainable t
  | nextAlignedReal {s period t} (hs : Instant.Obtainable s)
    (h : s.nextAlignedReal? period = some t) : Instant.Obtainable t
  | field {t} (h : Timing.Obtainable (.instant t)) : Instant.Obtainable t
  | key {t} (h : Trigger.Obtainable (.onClock t)) : Instant.Obtainable t
  | resolve {timing now offset interval t} (htiming : Timing.Obtainable timing)
    (hnow : Instant.Obtainable now) (hinterval : ∀ d ∈ interval, Duration.Obtainable d)
    (h : timing.resolve now offset interval = .ok t) : Instant.Obtainable t

/-- The same of a timing. -/
inductive Timing.Obtainable : Timing → Prop
  | now : Timing.Obtainable .now
  | relative {d} (hd : Duration.Obtainable d) : Timing.Obtainable (.relative d)
  | components (secs micros picos : Int64) : Timing.Obtainable (.components secs micros picos)
  | instant {t} (ht : Instant.Obtainable t) : Timing.Obtainable (.instant t)
  | clockTime (hour minute : UInt8) : Timing.Obtainable (.clockTime hour minute)
  | nextMultiple : Timing.Obtainable .nextMultiple
  | ofSeconds {x timing} (h : Timing.ofSeconds x = .ok timing) : Timing.Obtainable timing
  | ofText {s timing} (h : Timing.read s = .ok timing) : Timing.Obtainable timing
  | ofJson {j timing} (hread : Reads j) (h : Timing.ofJson? j = some timing) :
    Timing.Obtainable timing

/-- The same of a trigger. -/
inductive Trigger.Obtainable : Trigger → Prop
  | onClock {t} (ht : Instant.Obtainable t) : Trigger.Obtainable (.onClock t)
  | afterIdle {d} (hd : Duration.Obtainable d) : Trigger.Obtainable (.afterIdle d)
  | shift {trigger delta} (h : Trigger.Obtainable trigger) (hdelta : Duration.Obtainable delta) :
    Trigger.Obtainable (trigger.shift delta)
  | ofJson {j trigger} (hread : Reads j) (h : Trigger.ofJson? j = some trigger) :
    Trigger.Obtainable trigger

end

/-- The spans and the instants that a program can get have a fraction less than a second, and each
kind is ordered as its totals are. -/
structure TimesOrdered : Prop where
  span_normal : ∀ {d : Duration}, d.Obtainable Reads → d.Normal
  instant_normal : ∀ {t : Instant}, t.Obtainable Reads → t.Normal
  span_lt : ∀ {a b : Duration}, a.Obtainable Reads → b.Obtainable Reads →
    (a < b ↔ a.total < b.total)
  span_eq : ∀ {a b : Duration}, a.Obtainable Reads → b.Obtainable Reads →
    (a = b ↔ a.total = b.total)
  instant_lt : ∀ {s t : Instant}, s.Obtainable Reads → t.Obtainable Reads →
    (s < t ↔ s.total < t.total)
  instant_eq : ∀ {s t : Instant}, s.Obtainable Reads → t.Obtainable Reads →
    (s = t ↔ s.total = t.total)

end Obtainable

variable {Reads : Json → Prop}

mutual

theorem Duration.Obtainable.normal {d : Duration} (hReads : ∀ j, Reads j → j.Proper) :
    d.Obtainable Reads → d.Normal
  | .zero => Duration.ofSeconds_normal 0
  | .ofTotal n => Duration.ofTotal_normal n
  | .ofSeconds n => Duration.ofSeconds_normal n
  | .ofMillis _ => Duration.ofTotal_normal _
  | .ofComponents _ _ _ => Duration.ofTotal_normal _
  | .ofNanos _ => Duration.ofTotal_normal _
  | .ofSecondsReal h => Duration.normal_of_ofSecondsReal? h
  | .ofWords h => Timing.normal_of_readWords? h
  | .ofJson hread h => (hReads _ hread).normal_of_ofJson? (.value _) h
  | .add _ _ => Duration.ofTotal_normal _
  | .sub _ _ => Duration.ofTotal_normal _
  | .neg _ => Duration.ofTotal_normal _
  | .times _ _ => Duration.ofTotal_normal _
  | .since _ _ => Duration.ofTotal_normal _
  | .field h => h.normal hReads
  | .key h => h.normal hReads
  | .wait htiming h => Timing.normal_of_delay? (htiming.normal hReads) (Timing.delay?_of_waitWhenIdle h)

theorem Instant.Obtainable.normal {t : Instant} (hReads : ∀ j, Reads j → j.Proper) :
    t.Obtainable Reads → t.Normal
  | .epoch => Instant.ofSeconds_normal 0
  | .ofTotal n => Instant.ofTotal_normal n
  | .ofSeconds n => Instant.ofSeconds_normal n
  | .ofMicros _ _ => Instant.ofTotal_normal _
  | .ofNanos _ => Instant.ofTotal_normal _
  | .ofParts h => Instant.normal_of_ofParts? h
  | .ofJson hread h => (hReads _ hread).normal_of_ofJson? (.value _) h
  | .add _ _ => Instant.ofTotal_normal _
  | .sub _ _ => Instant.ofTotal_normal _
  | .dated _ h => Civil.normal_of_dated? h
  | .nextAligned _ _ h => Instant.normal_of_nextAligned? h
  | .nextAlignedReal _ h => Instant.normal_of_nextAlignedReal? h
  | .field h => h.normal hReads
  | .key h => h.normal hReads
  | .resolve htiming hnow _ h =>
    Timing.normal_of_resolve (htiming.normal hReads) (hnow.normal hReads) h

theorem Timing.Obtainable.normal {timing : Timing} (hReads : ∀ j, Reads j → j.Proper) :
    timing.Obtainable Reads → timing.Normal
  | .now => trivial
  | .relative hd => hd.normal hReads
  | .components _ _ _ => trivial
  | .instant ht => ht.normal hReads
  | .clockTime _ _ => trivial
  | .nextMultiple => trivial
  | .ofSeconds h => Timing.normal_of_ofSeconds h
  | .ofText h => Timing.normal_of_read h
  | .ofJson hread h => Timing.normal_of_ofJson? (hReads _ hread) h

theorem Trigger.Obtainable.normal {trigger : Trigger} (hReads : ∀ j, Reads j → j.Proper) :
    trigger.Obtainable Reads → trigger.Normal
  | .onClock ht => ht.normal hReads
  | .afterIdle hd => hd.normal hReads
  | .shift _ _ => Trigger.normal_shift _ _
  | .ofJson hread h => Trigger.normal_of_ofJson? (hReads _ hread) h

end

/-- The values that a program can get are ordered as their totals are just when no JSON that it
reads has a fraction of a second or more. -/
theorem timesOrdered_iff : TimesOrdered Reads ↔ ∀ j, Reads j → j.Proper := by
  constructor
  · intro h j hread fields secs picos hholds hwrites
    have hvalue : Ticks.ofJson? fields = some ⟨secs, picos⟩ := Ticks.ofJson?_eq_some_iff.mpr hwrites
    cases hholds with
    | value => exact h.span_normal (.ofJson hread hvalue)
    | delay =>
      have htiming : Timing.ofJson? (.object [(some "relative", fields)]) =
          some (.relative ⟨⟨secs, picos⟩⟩) := by
        simp [Timing.ofJson?, Timing.ofForm?, hvalue]
      exact h.span_normal (.field (.ofJson hread htiming))
    | time =>
      have htiming : Timing.ofJson? (.object [(some "at", fields)]) =
          some (.instant ⟨⟨secs, picos⟩⟩) := by
        simp [Timing.ofJson?, Timing.ofForm?, hvalue]
      exact h.instant_normal (.field (.ofJson hread htiming))
    | idleDelay =>
      have htrigger : Trigger.ofJson? (.object [(some "after_idle", fields)]) =
          some (.afterIdle ⟨⟨secs, picos⟩⟩) := by
        simp [Trigger.ofJson?, hvalue]
      exact h.span_normal (.key (.ofJson hread htrigger))
  · intro h
    constructor
    · exact fun hd => hd.normal h
    · exact fun ht => ht.normal h
    · exact fun ha hb => Ticks.lt_iff_total_lt (ha.normal h) (hb.normal h)
    · exact fun ha hb => Duration.eq_iff_total_eq (ha.normal h) (hb.normal h)
    · exact fun hs ht => Ticks.lt_iff_total_lt (hs.normal h) (ht.normal h)
    · exact fun hs ht => Instant.eq_iff_total_eq (hs.normal h) (ht.normal h)

theorem Timing.obtainable_of_readJson? {text : String} {timing : Timing}
    (h : Timing.readJson? text = some timing) :
    timing.Obtainable (fun j => ∃ text, Json.read? text = some j) := by
  unfold Timing.readJson? at h
  obtain ⟨j, hread, htiming⟩ := Option.bind_eq_some_iff.mp h
  exact .ofJson ⟨text, hread⟩ htiming

/-- Five seconds, all of them in the fraction. -/
def overlongDelay : Duration := ⟨⟨0, 5000000000000⟩⟩

theorem readJson?_overlongDelay :
    Timing.readJson? "\x7b\"relative\":\x7b\"secs\":0,\"picos\":5000000000000\x7d\x7d" =
      some (.relative overlongDelay) := by
  decide +kernel

/-- Five seconds are read from text in a timing, and come before one second. -/
theorem overlongDelay_out_of_order :
    overlongDelay.Obtainable (fun j => ∃ text, Json.read? text = some j) ∧
      ¬ overlongDelay.Normal ∧ overlongDelay < .ofSeconds 1 ∧
      (Duration.ofSeconds 1).total < overlongDelay.total :=
  ⟨.field (Timing.obtainable_of_readJson? readJson?_overlongDelay), by decide, by decide, by decide⟩

end Timekeeping
