import ScriptEngine.Proofs.OrderedValues
import ScriptEngine.Proofs.ReadValues
/-!
# Equality of values

Equality of values is that of their data: what a comparison adds to memory on its way changes nothing of what is compared.
So its laws are those of data.
-/

namespace ScriptEngine

variable {s t u : Store} {a b c v w : Value} {x y z : Datum} {n m : Node} {i j : Json}

namespace Json

/-- Lists of trees are equal when they are the same, if that is so of their items. -/
theorem equalAll_iff {is js : List Json}
    (each : ∀ (k : Nat) (i j : Json), is[k]? = some i → js[k]? = some j → (i.equal j = true ↔ i = j)) :
    equalAll is js = true ↔ is = js := by
  induction is generalizing js with
  | nil => cases js <;> simp [equalAll]
  | cons i is ih =>
    cases js with
    | nil => simp [equalAll]
    | cons j js =>
      rw [equalAll, Bool.and_eq_true, each 0 i j rfl rfl, ih fun k i j hi hj => each (k + 1) i j hi hj, List.cons.injEq]

/-- So are lists of entries. -/
theorem equalEntries_iff {es fs : List (Text × Json)}
    (each : ∀ (k : Nat) (e f : Text × Json), es[k]? = some e → fs[k]? = some f → (e.2.equal f.2 = true ↔ e.2 = f.2)) :
    equalEntries es fs = true ↔ es = fs := by
  induction es generalizing fs with
  | nil => cases fs <;> simp [equalEntries]
  | cons e es ih =>
    cases fs with
    | nil => simp [equalEntries]
    | cons f fs =>
      obtain ⟨k, i⟩ := e
      obtain ⟨l, j⟩ := f
      have here := each 0 (k, i) (l, j) rfl rfl
      rw [equalEntries, Bool.and_eq_true, Bool.and_eq_true, here, ih fun k e f he hf => each (k + 1) e f he hf, beq_iff_eq,
        List.cons.injEq, Prod.mk.injEq]

end Json

/-- Trees without doubles are equal when they are the same. -/
theorem Store.Spells.equal_iff (spells : s.Spells n i) (spells' : t.Spells m j) : i.equal j = true ↔ i = j := by
  induction spells generalizing m j with
  | null => cases spells' <;> simp [Json.equal]
  | bool b => cases spells' <;> simp [Json.equal]
  | int k => cases spells' <;> simp [Json.equal]
  | text t => cases spells' <;> simp [Json.equal]
  | object lies keys each ih =>
    cases spells' with
    | object lies' keys' each' =>
      rw [Json.equal, Json.object.injEq]
      refine Json.equalEntries_iff fun k e f he hf => ?_
      obtain ⟨e₀, he₀⟩ := exists_getElem?_of_length (by simpa using congrArg List.length keys.symm) he
      obtain ⟨f₀, hf₀⟩ := exists_getElem?_of_length (by simpa using congrArg List.length keys'.symm) hf
      exact ih k e₀ e he₀ he (each' k f₀ f hf₀ hf)
    | _ => simp [Json.equal]
  | list lies size each ih =>
    cases spells' with
    | list lies' size' each' =>
      rw [Json.equal, Json.list.injEq]
      refine Json.equalAll_iff fun k i j hi hj => ?_
      obtain ⟨n, hn⟩ := exists_getElem?_of_length size.symm hi
      obtain ⟨m, hm⟩ := exists_getElem?_of_length size'.symm hj
      exact ih k n i hn hi (each' k m j hm hj)
    | _ => simp [Json.equal]

/-- The sort of the data of values of a kind. -/
def Kind.tag : Kind → Datum.Tag
  | .null => .null
  | .bool => .bool
  | .byte | .int | .long | .double => .number
  | .string => .text
  | .date => .date
  | .json => .json
  | .image | .vectorImage | .canvas | .function => .handle
  | k => .sequence k

/-- Json is the only kind of its sort. -/
theorem Kind.tag_eq_json {k : Kind} : k.tag = .json ↔ k = .json := by
  cases k <;> decide

/-- Kinds of one sort are those of numbers and of handles. -/
theorem Kind.tag_of_ne {k l : Kind} (apart : k ≠ l) (tags : k.tag = l.tag) : k.tag = .number ∨ k.tag = .handle := by
  cases k <;> first | exact .inl rfl | exact .inr rfl | (cases l <;> first | exact absurd rfl apart | cases tags)

theorem Kind.isNumeric_iff (k : Kind) : k.isNumeric = true ↔ k.tag = .number := by
  cases k <;> decide

/-- The data of a value is of the sort of its kind. -/
theorem Store.ReadsAs.tag_eq (reads : s.ReadsAs v x) : x.tag = (s.kindOf v).tag := by
  cases reads with
  | single single => cases v <;> cases single <;> rfl
  | json => rfl
  | sequence lies =>
    cases v with
    | array a =>
      change Datum.Tag.sequence (s.array a).cells.kind = (s.array a).cells.kind.tag
      cases (s.array a).cells <;> rfl
    | queue a => rfl
    | _ => cases lies

/-- Numbers are values of whole numbers. -/
theorem Store.ReadsAs.whole (reads : s.ReadsAs v x) (number : x.tag = .number) : ∃ n, x = .whole n ∧ v.whole? = some n.toInt := by
  cases reads with
  | single single =>
    cases v with
    | byte k =>
      cases single
      have small := k.toNat_lt
      exact ⟨_, rfl, congrArg some (Int64.toInt_ofNat_of_lt (by omega)).symm⟩
    | int k =>
      cases single
      exact ⟨_, rfl, congrArg some k.toInt_toInt64.symm⟩
    | long k =>
      cases single
      exact ⟨_, rfl, rfl⟩
    | _ => cases single <;> cases number
  | json => cases number
  | sequence => cases number

/-- Json is the data of json values. -/
theorem Store.ReadsAs.json_of_tag (reads : s.ReadsAs v x) (json : x.tag = .json) :
    ∃ p n i, v = .json p ∧ x = .json i ∧ s.boxes[p]? = some n ∧ s.Spells n i := by
  cases reads with
  | single single => cases v <;> cases single <;> cases json
  | json lies spells => exact ⟨_, _, _, rfl, rfl, lies, spells⟩
  | sequence => cases json

/-- A handle is the value that it is the data of. -/
theorem Store.ReadsAs.handle_of_tag (reads : s.ReadsAs v x) (handle : x.tag = .handle) : ∃ shown, x = .handle v shown := by
  cases reads with
  | single single =>
    cases v with
    | image | vectorImage | canvas | function =>
      cases single
      exact ⟨_, rfl⟩
    | _ => cases single <;> cases handle
  | json => cases handle
  | sequence => cases handle

/-- Single data is equal to itself only. -/
theorem Datum.same_iff_eq (x y : Datum) (left : x.IsSingle) (right : y.IsSingle) : x.Same y ↔ x = y := by
  constructor
  · intro same
    cases same with
    | single => rfl
    | json json =>
      rcases json with json | json
      · obtain ⟨j, rfl⟩ := exists_json json
        cases left
      · obtain ⟨j, rfl⟩ := exists_json json
        cases right
    | _ => cases left
  · rintro rfl
    exact .single left

/-- Dates are equal when they are one instant. -/
theorem Datum.same_date_iff {d e : Date} : Datum.Same (.date d) (.date e) ↔ d.sameInstant e = true := by
  constructor
  · intro same
    cases same with
    | single single => cases single
    | date instant => exact instant
    | json json => rcases json with h | h <;> cases h
  · exact .date

/-- Sequences of one kind are equal when their items are. -/
theorem Datum.same_sequence_iff {k : Kind} {xs ys : List Datum} :
    Datum.Same (.sequence k xs) (.sequence k ys) ↔ List.Forall₂ Datum.Same xs ys := by
  constructor
  · intro same
    cases same with
    | single single => cases single
    | sequence size each => exact forall₂_of_each size each
    | json json => rcases json with h | h <;> cases h
  · exact fun all => .sequence all.length_eq (each_of_forall₂ all)

/-- Handles of memory are equal when they are the same value. -/
theorem Store.same_handle_iff : Datum.Same (.handle v (s.inspect v)) (.handle w (s.inspect w)) ↔ v = w := by
  rw [Datum.same_iff_eq (.handle v _) (.handle w _) trivial trivial, Datum.handle.injEq]
  refine ⟨And.left, ?_⟩
  rintro rfl
  exact ⟨rfl, rfl⟩

namespace StoreM

/-! ## Comparisons -/

/-- Where one of two values is json, their native forms are compared. -/
theorem run_equalTo_json (left : s.ReadsAs a x) (right : s.ReadsAs b y) (d : Nat) (json : x.tag = .json ∨ y.tag = .json) :
    ∃ r t, (equalTo (d + 1) a b).run.run s = (.ok r, t) ∧ s.KeepsAll t ∧ (r = true ↔ Datum.Same x y) := by
  have kinds := json
  rw [left.tag_eq, right.tag_eq, Kind.tag_eq_json, Kind.tag_eq_json] at kinds
  rw [Datum.same_iff_form json]
  have numbers : ¬((s.kindOf a).isNumeric = true ∧ (s.kindOf b).isNumeric = true) := by
    rintro ⟨numberA, numberB⟩
    rcases kinds with k | k
    · rw [k] at numberA
      cases numberA
    · rw [k] at numberB
      cases numberB
  by_cases same : s.kindOf a = s.kindOf b
  · have both : x.tag = y.tag := by rw [left.tag_eq, right.tag_eq, same]
    obtain ⟨p, n, i, rfl, rfl, lies, spells⟩ := left.json_of_tag (json.elim id both.trans)
    obtain ⟨q, m, j, rfl, rfl, lies', spells'⟩ := right.json_of_tag (json.elim both.symm.trans id)
    refine ⟨_, s, ?_, .refl s, spells.equal_iff spells'⟩
    unfold equalTo
    rw [run_get_bind]
    change (equalNodes (s.box p) (s.box q)).run.run s = _
    rw [Store.box, Store.box, lies, lies', Option.getD_some, Option.getD_some, run_equalNodes spells spells']
    rfl
  · obtain ⟨n, t, run, keeps, spells⟩ := run_toNode left
    obtain ⟨m, u, run', keeps', spells'⟩ := run_toNode (right.later keeps)
    have spells := spells.later keeps'.toKeepsData
    refine ⟨_, u, ?_, keeps.trans keeps', spells.equal_iff spells'⟩
    unfold equalTo
    rw [run_get_bind]
    simp only [Bool.and_eq_true, numbers, ↓reduceIte, same, kinds, ne_eq, not_false_eq_true, Bool.or_eq_true, decide_eq_true_eq]
    rw [ExceptT.run_bind, StateT.run_bind, run]
    change (toNode b >>= fun m => equalNodes n m : StoreM Bool).run.run t = _
    rw [ExceptT.run_bind, StateT.run_bind, run']
    exact run_equalNodes spells spells'

/-- Numbers are compared as whole numbers. -/
theorem run_equalTo_number (left : s.ReadsAs a x) (right : s.ReadsAs b y) (d : Nat) (hx : x.tag = .number) (hy : y.tag = .number) :
    ∃ r, (equalTo (d + 1) a b).run.run s = (.ok r, s) ∧ (r = true ↔ Datum.Same x y) := by
  obtain ⟨n, rfl, hn⟩ := left.whole hx
  obtain ⟨m, rfl, hm⟩ := right.whole hy
  refine ⟨_, run_equalTo_whole hn hm d, ?_⟩
  rw [decide_eq_true_eq, Int64.toInt_inj, Datum.same_iff_eq (.whole n) (.whole m) trivial trivial, Datum.whole.injEq]

/-- Values of two kinds that are not both numbers, and neither of which is json, are not equal. -/
theorem run_equalTo_apart (left : s.ReadsAs a x) (right : s.ReadsAs b y) (d : Nat)
    (numbers : ¬(x.tag = .number ∧ y.tag = .number)) (json : ¬(x.tag = .json ∨ y.tag = .json)) (apart : s.kindOf a ≠ s.kindOf b) :
    (equalTo (d + 1) a b).run.run s = (.ok false, s) ∧ ¬Datum.Same x y := by
  have unlike : Datum.Unlike x y := by
    obtain ⟨jsonX, jsonY⟩ := not_or.mp json
    by_cases tags : x.tag = y.tag
    · rw [left.tag_eq, right.tag_eq] at tags
      obtain number | handle := Kind.tag_of_ne apart tags
      · exact absurd ⟨left.tag_eq.trans number, right.tag_eq.trans (tags.symm.trans number)⟩ numbers
      · obtain ⟨_, rfl⟩ := left.handle_of_tag (left.tag_eq.trans handle)
        obtain ⟨_, rfl⟩ := right.handle_of_tag (right.tag_eq.trans (tags.symm.trans handle))
        exact .handles fun same => apart (congrArg s.kindOf same)
    · exact .sorts jsonX jsonY tags
  refine ⟨?_, unlike.not_same⟩
  rw [left.tag_eq, right.tag_eq] at numbers json
  rw [Kind.tag_eq_json, Kind.tag_eq_json] at json
  rw [← Kind.isNumeric_iff, ← Kind.isNumeric_iff] at numbers
  unfold equalTo
  rw [run_get_bind]
  simp only [Bool.and_eq_true, numbers, ↓reduceIte, apart, json, ne_eq, not_false_eq_true, Bool.or_eq_true, decide_eq_true_eq]
  rfl

/-- Pictures and functions are compared by which they are. -/
theorem run_equalTo_handle (d p q : Nat) (s : Store) :
    (equalTo (d + 1) (.image p) (.image q)).run.run s = (.ok (p = q), s) ∧
      (equalTo (d + 1) (.vectorImage p) (.vectorImage q)).run.run s = (.ok (p = q), s) ∧
      (equalTo (d + 1) (.canvas p) (.canvas q)).run.run s = (.ok (p = q), s) ∧
      (equalTo (d + 1) (.function p) (.function q)).run.run s = (.ok (p = q), s) := by
  unfold equalTo
  simp only [run_get_bind]
  exact ⟨rfl, rfl, rfl, rfl⟩

/-- Single values of one kind are compared by what they hold. -/
theorem run_equalTo_single (left : s.single? a = some x) (right : s.single? b = some y) (d : Nat)
    (kinds : s.kindOf a = s.kindOf b) (number : x.tag ≠ .number) :
    ∃ r, (equalTo (d + 1) a b).run.run s = (.ok r, s) ∧ (r = true ↔ Datum.Same x y) := by
  cases a with
  | null =>
    cases b with
    | null =>
      cases left
      cases right
      refine ⟨true, ?_, iff_of_true rfl (.refl _)⟩
      unfold equalTo
      rfl
    | _ => first | cases kinds | cases right
  | bool p =>
    cases b with
    | bool q =>
      cases left
      cases right
      refine ⟨_, run_equalTo_bool p q s d, ?_⟩
      rw [decide_eq_true_eq, Datum.same_iff_eq (.bool p) (.bool q) trivial trivial, Datum.bool.injEq]
    | _ => first | cases kinds | cases right
  | string p =>
    cases b with
    | string q =>
      cases left
      cases right
      refine ⟨_, run_equalTo_string p q s d, ?_⟩
      rw [decide_eq_true_eq, Datum.same_iff_eq (.text p) (.text q) trivial trivial, Datum.text.injEq]
    | _ => first | cases kinds | cases right
  | date p =>
    cases b with
    | date q =>
      cases left
      cases right
      exact ⟨_, run_equalTo_date p q s d, Datum.same_date_iff.symm⟩
    | _ => first | cases kinds | cases right
  | image p =>
    cases b with
    | image q =>
      cases left
      cases right
      refine ⟨_, (run_equalTo_handle d p q s).1, ?_⟩
      rw [decide_eq_true_eq, Store.same_handle_iff, Value.image.injEq]
    | _ => first | cases kinds | cases right
  | vectorImage p =>
    cases b with
    | vectorImage q =>
      cases left
      cases right
      refine ⟨_, (run_equalTo_handle d p q s).2.1, ?_⟩
      rw [decide_eq_true_eq, Store.same_handle_iff, Value.vectorImage.injEq]
    | _ => first | cases kinds | cases right
  | canvas p =>
    cases b with
    | canvas q =>
      cases left
      cases right
      refine ⟨_, (run_equalTo_handle d p q s).2.2.1, ?_⟩
      rw [decide_eq_true_eq, Store.same_handle_iff, Value.canvas.injEq]
    | _ => first | cases kinds | cases right
  | function p =>
    cases b with
    | function q =>
      cases left
      cases right
      refine ⟨_, (run_equalTo_handle d p q s).2.2.2, ?_⟩
      rw [decide_eq_true_eq, Store.same_handle_iff, Value.function.injEq]
    | _ => first | cases kinds | cases right
  | byte n | int n | long n =>
    cases left
    exact absurd rfl number
  | _ => cases left

/-- The items of two lists are compared one by one, until two are not equal. -/
theorem run_allEqual {eq : Value → Value → StoreM Bool} {vs ws : List Value} {xs ys : List Datum} (left : vs.length = xs.length)
    (right : ws.length = ys.length)
    (each : ∀ (i : Nat) (v w : Value) (x y : Datum), vs[i]? = some v → ws[i]? = some w → xs[i]? = some x → ys[i]? = some y →
      ∀ t, s.KeepsAll t → ∃ r u, (eq v w).run.run t = (.ok r, u) ∧ t.KeepsAll u ∧ (r = true ↔ Datum.Same x y))
    (keeps : s.KeepsAll t) :
    ∃ r u, (allEqual eq vs ws).run.run t = (.ok r, u) ∧ t.KeepsAll u ∧ (r = true ↔ List.Forall₂ Datum.Same xs ys) := by
  induction vs generalizing ws xs ys t with
  | nil =>
    obtain rfl := List.eq_nil_of_length_eq_zero left.symm
    cases ws with
    | nil =>
      obtain rfl := List.eq_nil_of_length_eq_zero right.symm
      exact ⟨true, t, rfl, .refl t, iff_of_true rfl .nil⟩
    | cons w ws =>
      refine ⟨false, t, rfl, .refl t, iff_of_false Bool.false_ne_true fun same => ?_⟩
      rw [← same.length_eq] at right
      cases right
  | cons v vs ih =>
    cases ws with
    | nil =>
      refine ⟨false, t, rfl, .refl t, iff_of_false Bool.false_ne_true fun same => ?_⟩
      rw [same.length_eq, ← right] at left
      cases left
    | cons w ws =>
      obtain ⟨x, xs, rfl⟩ := List.exists_cons_of_length_eq_add_one left.symm
      obtain ⟨y, ys, rfl⟩ := List.exists_cons_of_length_eq_add_one right.symm
      obtain ⟨r, u, run, more, found⟩ := each 0 v w x y rfl rfl rfl rfl t keeps
      rw [allEqual, ExceptT.run_bind, StateT.run_bind, run, List.forall₂_cons]
      cases r with
      | false => exact ⟨false, u, rfl, more, iff_of_false Bool.false_ne_true fun same => Bool.false_ne_true (found.mpr same.1)⟩
      | true =>
        obtain ⟨r, w, run, more', found'⟩ := ih (Nat.succ.inj left) (Nat.succ.inj right)
          (fun i v w x y hv hw hx hy => each (i + 1) v w x y hv hw hx hy) (keeps.trans more)
        exact ⟨r, w, run, more.trans more', found'.trans (and_iff_right (found.mp rfl)).symm⟩

/-- Sequences of one kind are compared item by item. -/
theorem run_equalTo_sequence {vs ws : List Value} (left : s.elements? a = some vs) (right : s.elements? b = some ws)
    (d : Nat) (kinds : s.kindOf a = s.kindOf b) :
    (equalTo (d + 1) a b).run.run s = (allEqual (equalTo d) vs ws).run.run s := by
  cases a with
  | array p =>
    have number : (s.kindOf (.array p)).isNumeric = false := by
      change (s.array p).cells.kind.isNumeric = false
      cases (s.array p).cells <;> rfl
    cases b with
    | array q =>
      unfold equalTo
      rw [run_get_bind]
      simp only [← kinds, number, Bool.false_and, Bool.false_eq_true, ↓reduceIte, ne_eq, not_true_eq_false]
      rw [Store.array_of_elements? left, Store.array_of_elements? right]
    | queue q =>
      change (s.array p).cells.kind = .queue at kinds
      cases h : (s.array p).cells <;> rw [h] at kinds <;> cases kinds
    | _ => cases right
  | queue p =>
    cases b with
    | array q =>
      change .queue = (s.array q).cells.kind at kinds
      cases h : (s.array q).cells <;> rw [h] at kinds <;> cases kinds
    | queue q =>
      unfold equalTo
      rw [run_get_bind]
      change (allEqual (equalTo d) (s.queue p) (s.queue q)).run.run s = _
      rw [Store.queue_of_elements? left, Store.queue_of_elements? right]
    | _ => cases right
  | _ => cases left

/-- Where one is json, or both are numbers, or the kinds are two, nothing is followed. -/
theorem run_equalTo_mixed (left : s.ReadsAs a x) (right : s.ReadsAs b y) (d : Nat)
    (mixed : (x.tag = .json ∨ y.tag = .json) ∨ (x.tag = .number ∧ y.tag = .number) ∨ s.kindOf a ≠ s.kindOf b) :
    ∃ r t, (equalTo (d + 1) a b).run.run s = (.ok r, t) ∧ s.KeepsAll t ∧ (r = true ↔ Datum.Same x y) := by
  by_cases json : x.tag = .json ∨ y.tag = .json
  · exact run_equalTo_json left right d json
  by_cases numbers : x.tag = .number ∧ y.tag = .number
  · obtain ⟨r, run, same⟩ := run_equalTo_number left right d numbers.1 numbers.2
    exact ⟨r, s, run, .refl s, same⟩
  · have kinds := (mixed.resolve_left json).resolve_left numbers
    obtain ⟨run, apart⟩ := run_equalTo_apart left right d numbers json kinds
    exact ⟨false, s, run, .refl s, iff_of_false Bool.false_ne_true apart⟩

/-- Values that are followed to their ends are equal when their data is. -/
theorem run_equalTo (left : s.ReadsAs a x) (keeps : s.KeepsAll t) (right : t.ReadsAs b y) {d : Nat} (deep : x.depth ≤ d) :
    ∃ r u, (equalTo (d + 1) a b).run.run t = (.ok r, u) ∧ t.KeepsAll u ∧ (r = true ↔ Datum.Same x y) := by
  -- elements come before what holds them, and the memory of the comparison grows while they are compared
  induction left generalizing b y t d with
  | @single a x single =>
    have here : t.single? a = some x := (keeps.single? a).trans single
    have left : t.ReadsAs a x := .single here
    by_cases mixed : (x.tag = .json ∨ y.tag = .json) ∨ (x.tag = .number ∧ y.tag = .number) ∨ t.kindOf a ≠ t.kindOf b
    · exact run_equalTo_mixed left right d mixed
    obtain ⟨json, numbers, kinds⟩ : _ ∧ _ ∧ t.kindOf a = t.kindOf b := by simpa only [not_or, not_not] using mixed
    have tags : x.tag = y.tag := by rw [left.tag_eq, right.tag_eq, kinds]
    cases right with
    | single there =>
      obtain ⟨r, run, same⟩ := run_equalTo_single here there d kinds fun number => numbers ⟨number, tags.symm.trans number⟩
      exact ⟨r, t, run, .refl t, same⟩
    | json => exact absurd rfl json.2
    | sequence => cases a <;> cases here <;> cases tags
  | json lies spells => exact run_equalTo_mixed ((Store.ReadsAs.json lies spells).later keeps) right d (.inl (.inl rfl))
  | @sequence a vs xs lies size each ih =>
    have left : t.ReadsAs a (.sequence (s.kindOf a) xs) := (Store.ReadsAs.sequence lies size each).later keeps
    by_cases mixed : y.tag = .json ∨ t.kindOf a ≠ t.kindOf b
    · exact run_equalTo_mixed left right d (mixed.imp .inr .inr)
    obtain ⟨json, kinds⟩ : _ ∧ t.kindOf a = t.kindOf b := by simpa only [not_or, not_not] using mixed
    obtain ⟨lies, kind⟩ := keeps.elements? lies
    have tags : y.tag = .sequence (s.kindOf a) := by
      rw [right.tag_eq, ← kinds, ← left.tag_eq]
      rfl
    cases right with
    | @single b y there => cases b <;> cases there <;> cases tags
    | json => exact absurd rfl json
    | @sequence b ws ys lies' size' each' =>
      rw [Datum.depth] at deep
      obtain ⟨d, rfl⟩ := Nat.exists_eq_add_of_lt deep
      rw [run_equalTo_sequence lies lies' _ kinds, ← kinds, kind, Datum.same_sequence_iff]
      refine run_allEqual size size' (fun i v w x y hv hw hx hy u more => ?_) (.refl t)
      have less := Datum.depth_le_depths (List.mem_of_getElem? hx)
      exact ih i v x hv hx (keeps.trans more) ((each' i w y hw hy).later more) (by omega)

/-- Values are found to be equal when their data is. -/
theorem run_equal (left : s.ReadsAs a x) (right : s.ReadsAs b y) :
    ∃ r t, (equal a b).run.run s = (.ok r, t) ∧ s.KeepsAll t ∧ (r = true ↔ Datum.Same x y) := by
  unfold equal
  rw [run_get_bind]
  exact run_equalTo left (.refl s) right (Nat.le_of_lt left.depth_lt)

end StoreM

namespace Store

/-- Values equate when their data is the same. -/
theorem equates_iff (left : s.ReadsAs a x) (right : s.ReadsAs b y) : s.Equates a b ↔ Datum.Same x y := by
  obtain ⟨r, t, run, -, same⟩ := StoreM.run_equal left right
  rw [← same, Equates, run]
  constructor
  · rintro ⟨u, found⟩
    cases found
    rfl
  · rintro rfl
    exact ⟨t, rfl⟩

/-- Equality of values without doubles is reflexive and symmetric, and it is transitive exactly where their data is not
bridged by json. -/
theorem equal_lawful (ha : s.ReadsAs a x) (hb : s.ReadsAs b y) (hc : s.ReadsAs c z) :
    s.Equates a a ∧ (s.Equates a b → s.Equates b a) ∧
      (s.Equates a b → s.Equates b c → (s.Equates a c ↔ ¬Datum.Bridged x y z)) := by
  rw [equates_iff ha ha, equates_iff ha hb, equates_iff hb ha, equates_iff hb hc, equates_iff ha hc]
  exact ⟨.refl x, .symm, Datum.Same.trans_iff⟩

/-- Memory with the list of the number zero in many forms: two arrays of bytes, an array of any elements and json. -/
def zeros : Store :=
  { Store.initial with
    arrays := #[⟨.byte, false, .bytes #[0]⟩, ⟨.byte, false, .bytes #[0]⟩, ⟨.any, false, .boxed #[.int 0]⟩]
    boxes := #[.list 0 1]
    buffers := #[#[.int 0]] }

theorem zeros_readsAs :
    zeros.ReadsAs (.array 0) (.sequence .byteArray [.whole 0]) ∧ zeros.ReadsAs (.array 1) (.sequence .byteArray [.whole 0]) ∧
      zeros.ReadsAs (.array 2) (.sequence .array [.whole 0]) ∧ zeros.ReadsAs (.json 0) (.json (.list [.int 0])) := by
  refine ⟨?_, ?_, ?_, ?_⟩
  · exact .of_items rfl (.cons (.single rfl) .nil)
  · exact .of_items rfl (.cons (.single rfl) .nil)
  · exact .of_items rfl (.cons (.single rfl) .nil)
  · exact .json rfl (.of_items rfl (.cons (.int 0) .nil))

/-- Two arrays of bytes are equal to the same json. -/
theorem equal_lawful_bytes :
    zeros.Equates (.array 0) (.array 1) ∧ zeros.Equates (.array 1) (.json 0) ∧ zeros.Equates (.array 0) (.json 0) := by
  obtain ⟨first, second, -, json⟩ := zeros_readsAs
  have bytes : zeros.Equates (.array 0) (.array 1) := (equates_iff first second).mpr (.refl _)
  have list : zeros.Equates (.array 1) (.json 0) := (equates_iff second json).mpr (.json (.inr rfl) rfl)
  refine ⟨bytes, list, ((equal_lawful first second json).2.2 bytes list).mpr ?_⟩
  intro bridged
  cases bridged with
  | last retold => exact retold.form_ne rfl

/-- An array of bytes and an array of any elements are equal to the same json, and not to each other. -/
theorem equal_bridged :
    zeros.Equates (.array 0) (.json 0) ∧ zeros.Equates (.json 0) (.array 2) ∧ ¬zeros.Equates (.array 0) (.array 2) := by
  obtain ⟨bytes, -, boxed, json⟩ := zeros_readsAs
  rw [equates_iff bytes json, equates_iff json boxed, equates_iff bytes boxed]
  refine ⟨.json (.inr rfl) rfl, .json (.inl rfl) rfl, ?_⟩
  exact Datum.Unlike.not_same (.sorts (by decide) (by decide) (by decide))

/-- Values come back from their native form as equal ones, unless they are dates, pictures or functions: json in place of
arrays and queues, and integers in place of bytes and longs. -/
theorem native_equal (reads : s.ReadsAs v x)
    (kind : s.kindOf v ∈ [.null, .bool, .byte, .int, .long, .string, .array, .byteArray, .bitmap, .intMap, .queue, .json]) :
    ∃ t, (do StoreM.equal (← StoreM.ofNode (← StoreM.toNode v)) v).run.run s = (.ok true, t) := by
  obtain ⟨n, t, toNode, keeps, spells⟩ := StoreM.run_toNode reads
  obtain ⟨w, u, ofNode, keeps', back⟩ := StoreM.run_ofNode spells
  obtain ⟨r, t', equal, -, same⟩ := StoreM.run_equal back ((reads.later keeps).later keeps')
  have plain : x.tag ≠ .date ∧ x.tag ≠ .handle := by
    rw [reads.tag_eq]
    revert kind
    generalize s.kindOf v = k
    cases k <;> decide
  obtain rfl : r = true := same.mpr ((Datum.same_ofForm_iff x).mpr plain)
  refine ⟨t', ?_⟩
  rw [ExceptT.run_bind, StateT.run_bind, toNode]
  change (StoreM.ofNode n >>= fun w => StoreM.equal w v : StoreM Bool).run.run t = _
  rw [ExceptT.run_bind, StateT.run_bind, ofNode]
  exact equal

/-- An array of an array of bytes, a queue, json and a date. -/
theorem native_equal_nested :
    let s : Store :=
      { Store.initial with
        arrays := #[⟨.any, false, .boxed #[.array 1, .queue 0, .json 0, .date default]⟩, ⟨.byte, false, .bytes #[7]⟩]
        queues := #[[.long 5, .null]]
        boxes := #[.list 0 1]
        buffers := #[#[.text "a"]] }
    let x := Datum.sequence .array [.sequence .byteArray [.whole 7], .sequence .queue [.whole 5, .null], .json (.list [.text "a"]),
      .date default]
    s.ReadsAs (.array 0) x ∧ s.kindOf (.array 0) = .array ∧
      ∃ t, (do StoreM.equal (← StoreM.ofNode (← StoreM.toNode (.array 0))) (.array 0)).run.run s = (.ok true, t) := by
  intro s x
  have bytes : s.ReadsAs (.array 1) (.sequence .byteArray [.whole 7]) := .of_items rfl (.cons (.single rfl) .nil)
  have queue : s.ReadsAs (.queue 0) (.sequence .queue [.whole 5, .null]) :=
    .of_items rfl (.cons (.single rfl) (.cons (.single rfl) .nil))
  have json : s.ReadsAs (.json 0) (.json (.list [.text "a"])) := .json rfl (.of_items rfl (.cons (.text "a") .nil))
  have reads : s.ReadsAs (.array 0) x := .of_items rfl (.cons bytes (.cons queue (.cons json (.cons (.single rfl) .nil))))
  exact ⟨reads, rfl, native_equal reads (by decide)⟩

end Store

end ScriptEngine
