import Timekeeping.Proofs.Json.Records
import Timekeeping.Timing.Json

/-!
Timings as JSON text. Each is read from what it is written as, whatever its fields hold, so no two are
written alike.
-/
namespace Timekeeping

open Json

theorem Ticks.toJson_plain (t : Ticks) : t.toJson.Plain :=
  .record (by simp [Plain.integer])

theorem Ticks.ofJson?_toJson (t : Ticks) : ofJson? t.toJson = some t := by
  have hfields : t.toJson.allFields? ["secs", "picos"] =
      some [.integer t.secs.toInt, .integer t.picos.toNat] :=
    allFields?_record (by simp)
  unfold ofJson?
  simp only [hfields, int64?_integer, uint64?_integer, Option.bind_eq_bind, Option.bind_some]

namespace Timing

theorem toJson_plain (timing : Timing) : timing.toJson.Plain := by
  cases timing with
  | now => exact .text "now"
  | nextMultiple => exact .text "next_integral_multiple"
  | relative delay => exact .record (by simp [delay.toTicks.toJson_plain])
  | instant t => exact .record (by simp [t.toTicks.toJson_plain])
  | components secs micros picos =>
    have hfields : (Json.record [("secs", .integer secs.toInt), ("micros", .integer micros.toInt),
        ("picos", .integer picos.toInt)]).Plain := .record (by simp [Plain.integer])
    exact .record (by simp [hfields])
  | clockTime hour minute =>
    have hfields : (Json.record [("hour", .integer hour.toNat), ("minute", .integer minute.toNat)]).Plain :=
      .record (by simp [Plain.integer])
    exact .record (by simp [hfields])

theorem ofJson?_toJson (timing : Timing) : ofJson? timing.toJson = some timing := by
  cases timing with
  | now => rfl
  | nextMultiple => rfl
  | relative delay =>
    change (Ticks.ofJson? delay.toTicks.toJson).map _ = _
    rw [Ticks.ofJson?_toJson]
    rfl
  | instant t =>
    change (Ticks.ofJson? t.toTicks.toJson).map _ = _
    rw [Ticks.ofJson?_toJson]
    rfl
  | components secs micros picos =>
    have hfields : (Json.record [("secs", .integer secs.toInt), ("micros", .integer micros.toInt),
        ("picos", .integer picos.toInt)]).allFields? ["secs", "micros", "picos"] =
          some [.integer secs.toInt, .integer micros.toInt, .integer picos.toInt] :=
      allFields?_record (by simp)
    change ofForm? "components" _ = _
    simp [ofForm?, hfields, int64?_integer]
  | clockTime hour minute =>
    have hfields : (Json.record [("hour", .integer hour.toNat),
        ("minute", .integer minute.toNat)]).allFields? ["hour", "minute"] =
          some [.integer hour.toNat, .integer minute.toNat] :=
      allFields?_record (by simp)
    change ofForm? "clock_time" _ = _
    simp [ofForm?, hfields, uint8?_integer]

theorem readJson?_writeJson (timing : Timing) : readJson? timing.writeJson = some timing := by
  unfold readJson? writeJson
  rw [read?_compress timing.toJson_plain, Option.bind_eq_bind, Option.bind_some, ofJson?_toJson]

theorem writeJson_injective : Function.Injective writeJson :=
  Function.Injective.of_comp (f := readJson?) fun a b h => by
    simpa [readJson?_writeJson] using h

/-- A written timing reads back, and is told from all others by its text. -/
theorem reads_back : (∀ timing, readJson? (writeJson timing) = some timing) ∧
    ∀ a b, a ≠ b → writeJson a ≠ writeJson b :=
  ⟨readJson?_writeJson, fun _ _ hne heq => hne (writeJson_injective heq)⟩

end Timing
end Timekeeping
