import ScriptEngine.Proofs.WholeNumbers
/-!
# Laws of conversions

Typed variables, elements of arrays, parameters and fields of records all convert what is put into them. What a
conversion may do is declared apart from it, in the table of kinds that may stand where another is declared, and the two
agree: a conversion that succeeds was allowed, it gives the kind asked for, a second one has nothing left to do, and whole
numbers keep their value.
-/

namespace ScriptEngine

/-- The elements of an array of this kind are packed. -/
def Kind.IsPacked (k : Kind) : Prop := k = .byteArray ∨ k = .bitmap ∨ k = .intMap

/-- An array is packed, or it is an array of whatever values. -/
theorem Kind.eq_array_or_packed {k : Kind} (h : k.isArray = true) : k = .array ∨ k.IsPacked := by
  cases k with
  | array => exact .inl rfl
  | byteArray => exact .inr (.inl rfl)
  | bitmap => exact .inr (.inr (.inl rfl))
  | intMap => exact .inr (.inr (.inr rfl))
  | _ => cases h

namespace StoreM

variable {s t : Store} {v w : Value} {k : Kind}

/-- A conversion of `v` in memory `s` gave `w`, in memory `t`, which is not of the kind asked for: all values are of the
kind of all values, null stands for itself where there is no zero, and a packed array is an array. -/
def Kept (s : Store) (v : Value) (k : Kind) (w : Value) (t : Store) : Prop :=
  (k = .any ∨ k = .invalid) ∧ w = v ∧ t = s ∨ v = .null ∧ Value.zero k = .null ∧ w = .null ∨
    k = .array ∧ (t.kindOf w).IsPacked

/-- The laws of a conversion of `v` in memory `s` that gave `w`, in memory `t`. -/
structure Coercion (s : Store) (v : Value) (k : Kind) (w : Value) (t : Store) : Prop where
  kind : t.kindOf w = k ∨ Kept s v k w t
  allowed : k ≠ .invalid → (s.kindOf v).assignable k = true
  again : (coerce w k).run.run t = (.ok w, t)
  whole : ∀ m n, v.whole? = some m → w.whole? = some n → m = n
  narrowing : (s.kindOf v = .double → k ≠ .long ∧ k ≠ .int) ∧ (s.kindOf v = .long → k ≠ .int) ∧
    (s.kindOf v = .bool → k.isNumeric = false)

/-! ## Kinds -/

/-- Where everything is asked for, or nothing is known, a value is taken as it is. -/
theorem run_coerce_all (h : k = .any ∨ k = .invalid) (v : Value) (s : Store) : (coerce v k).run.run s = (.ok v, s) := by
  unfold coerce
  rw [run_kindOf, if_pos (by obtain rfl | rfl := h <;> simp)]
  rfl

/-- Null becomes the zero of the kind. -/
theorem run_coerce_null (k : Kind) (s : Store) : (coerce .null k).run.run s = (.ok (Value.zero k), s) := by
  cases k <;> rfl

/-- The zero of a kind is of this kind, where there is one. -/
theorem kindOf_zero (k : Kind) (s : Store) : s.kindOf (Value.zero k) = k ∨ Value.zero k = .null := by
  cases k <;> first | exact .inl rfl | exact .inr rfl

/-- What is not null is converted to what the kind holds. -/
theorem converted_of_coerce (present : v ≠ .null) (valid : k ≠ .invalid) (run : (coerce v k).run.run s = (.ok w, t)) :
    Converted s v k w t := by
  have shown : v.isNull = false := by
    cases v with
    | null => exact absurd rfl present
    | _ => rfl
  have converted := (gives_coerce (s := s) valid shown).2 w (by rw [run])
  rwa [run] at converted

/-- What a conversion gives is of the kind asked for, or is kept for a reason. -/
theorem kind_of_coerce (run : (coerce v k).run.run s = (.ok w, t)) : t.kindOf w = k ∨ Kept s v k w t := by
  by_cases all : k = .any ∨ k = .invalid
  · rw [run_coerce_all all] at run
    cases run
    exact .inr (.inl ⟨all, rfl, rfl⟩)
  · rw [not_or] at all
    by_cases null : v = .null
    · subst null
      rw [run_coerce_null] at run
      cases run
      obtain kind | zero := kindOf_zero k s
      · exact .inl kind
      · exact .inr (.inr (.inl ⟨rfl, zero, zero⟩))
    · obtain any | kind | ⟨rfl, array⟩ := (converted_of_coerce null all.2 run).meets
      · exact absurd any all.1
      · exact .inl kind
      · exact (Kind.eq_array_or_packed array).imp id fun packed => .inr (.inr ⟨rfl, packed⟩)

/-! ## Whole numbers -/

/-- A conversion between kinds of whole numbers keeps the number. -/
theorem whole_of_run {m n : Int} (hv : v.whole? = some m) (hk : k = .byte ∨ k = .int ∨ k = .long)
    (run : (coerce v k).run.run s = (.ok w, t)) (hw : w.whole? = some n) : m = n := by
  cases v with
  | byte b =>
    cases hv
    have small := b.toNat_lt
    obtain rfl | rfl | rfl := hk
    · cases run
      cases hw
      rfl
    · cases run
      cases hw
      exact (Int32.toInt_ofNat_of_lt (by omega)).symm
    · cases run
      cases hw
      exact (Int64.toInt_ofNat_of_lt (by omega)).symm
  | int i =>
    cases hv
    obtain rfl | rfl | rfl := hk
    · cases run
    · cases run
      cases hw
      rfl
    · cases run
      cases hw
      exact i.toInt_toInt64.symm
  | long i =>
    cases hv
    obtain rfl | rfl | rfl := hk
    · cases run
    · cases run
    · cases run
      cases hw
      rfl
  | _ => cases hv

/-- An array is no whole number. -/
theorem whole?_of_packed (h : (s.kindOf w).IsPacked) : w.whole? = none := by
  cases w with
  | array a => rfl
  | _ => obtain packed | packed | packed := h <;> cases packed

/-- A whole number that is converted to a whole number keeps its value. -/
theorem whole_of_coerce {m n : Int} (run : (coerce v k).run.run s = (.ok w, t)) (hv : v.whole? = some m)
    (hw : w.whole? = some n) : m = n := by
  obtain kind | ⟨-, rfl, -⟩ | ⟨rfl, -⟩ | ⟨-, packed⟩ := kind_of_coerce run
  · exact whole_of_run hv (kind ▸ Store.kindOf_of_whole? hw t) run hw
  · rw [hv] at hw
    exact Option.some.inj hw
  · cases hv
  · rw [whole?_of_packed packed] at hw
    cases hw

/-! ## Laws -/

/-- Null may stand where any kind is declared. -/
theorem assignable_null (k : Kind) : Kind.null.assignable k = true := by simp [Kind.assignable]

/-- A conversion that succeeds was allowed by the table of kinds. -/
theorem assignable_of_coerce (valid : k ≠ .invalid) (run : (coerce v k).run.run s = (.ok w, t)) :
    (s.kindOf v).assignable k = true := by
  by_cases null : v = .null
  · subst null
    exact assignable_null k
  · exact (converted_of_coerce null valid run).allowed

/-- What is allowed does not narrow numbers, and makes no number of a truth value. -/
theorem narrowing_of_assignable {source : Kind} (h : source.assignable k = true) :
    (source = .double → k ≠ .long ∧ k ≠ .int) ∧ (source = .long → k ≠ .int) ∧ (source = .bool → k.isNumeric = false) := by
  refine ⟨?_, ?_, ?_⟩
  · rintro rfl
    constructor <;> (rintro rfl; exact absurd h (by decide))
  · rintro rfl rfl
    exact absurd h (by decide)
  · rintro rfl
    cases k with
    | byte | int | long | double => exact absurd h (by decide)
    | _ => rfl

/-- A conversion that succeeds is lawful: it gives a value of the kind asked for or one that the kind holds as it is, it
was allowed by the table of kinds, it gives the same value when it is made again, and it keeps whole numbers. -/
theorem coerce_lawful (run : (coerce v k).run.run s = (.ok w, t)) : Coercion s v k w t := by
  refine ⟨kind_of_coerce run, fun valid => assignable_of_coerce valid run, coerce_of_holds (holds_coerce run),
    fun m n => whole_of_coerce run, ?_⟩
  by_cases valid : k = .invalid
  · subst valid
    exact ⟨fun _ => ⟨nofun, nofun⟩, fun _ => nofun, fun _ => rfl⟩
  · exact narrowing_of_assignable (assignable_of_coerce valid run)

/-- Two bytes are packed as ints by one conversion, and a second one leaves them where they lie. -/
theorem coerce_lawful_bytes :
    let s : Store := { Store.initial with arrays := #[⟨.byte, false, .bytes #[7, 255]⟩] }
    let t : Store := { s with arrays := s.arrays.push ⟨.intMap, false, .ints #[7, 255]⟩ }
    (coerce (.array 0) .intMap).run.run s = (.ok (.array 1), t) ∧ Coercion s (.array 0) .intMap (.array 1) t := by
  intro s t
  have run : (coerce (.array 0) .intMap).run.run s = (.ok (.array 1), t) := by rfl
  exact ⟨run, coerce_lawful run⟩

end StoreM

end ScriptEngine
