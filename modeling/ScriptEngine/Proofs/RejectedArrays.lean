import ScriptEngine.Proofs.MemberWrites
import ScriptEngine.Proofs.RefusedWrites
/-!
# Arrays that are rejected

The elements of an array that is made to fit a shape are made to fit one after the other, and each is put back into its place before the
next one is looked at. So an array that is rejected holds, up to the element that was refused, what its elements were made into. From
there on it is as it was, and so are all other arrays, all json values and all variables.
-/

namespace ScriptEngine

/-! ## Slots that are kept -/

namespace Store

variable {s t : Store} {written : Nat → Prop} {changed changed' : Slot → Prop}

/-- Slots that are said to be changed may be more, and of elements only those of arrays in memory count. -/
theorem KeepsBut.weaken (h : s.KeepsBut changed t) (elements : ∀ slot, changed slot → ∃ a j, slot = .element a j)
    (more : ∀ a j, a < s.arrays.size → changed (.element a j) → changed' (.element a j)) : s.KeepsBut changed' t := by
  have place (p : Place) : ¬changed (.place p) := by
    intro impossible
    rcases elements _ impossible with ⟨_, _, ⟨⟩⟩
  have box (b : Nat) : ¬changed (.box b) := by
    intro impossible
    rcases elements _ impossible with ⟨_, _, ⟨⟩⟩
  constructor
  case elements =>
    intro a i v here kept
    have inside : a < s.arrays.size := by
      by_contra outside
      rw [array, Array.getElem?_eq_none (Nat.not_lt.mp outside)] at here
      cases here
    exact h.elements a i v here fun wrote => kept (more a i inside wrote)
  case boxes =>
    intro b n lies _
    exact h.boxes b n lies (box b)
  case places =>
    intro p n lies _
    exact h.places p n lies (place p)
  case keys =>
    intro a name key found _
    exact h.keys a name key found fun k _ => place _
  case size => exact h.size

/-- Where only some arrays are written to, all slots but theirs are kept. -/
theorem Later.keepsElements (h : s.Later written t) (more : ∀ b, written b → ∀ j, changed (.element b j)) : s.KeepsBut changed t := by
  have arrays : s.LaterBut (fun c => ∃ b, c = .array b ∧ written b) t := h.but fun b _ wrote => ⟨b, rfl, wrote⟩
  refine arrays.keepsBut ?_ ?_
  · rintro c ⟨b, same, -⟩
    exact ⟨b, same⟩
  · rintro b ⟨_, ⟨⟩, wrote⟩ j v _ kept
    exact absurd (more b wrote j) kept

/-- Of the arrays that are written to, only those in memory count. -/
theorem Later.within {written' : Nat → Prop} (h : s.Later written t) (more : ∀ a < s.arrays.size, written a → written' a) :
    s.Later written' t := by
  refine { h with arrays := ?_ }
  intro a d lies
  rcases h.arrays a d lies with ⟨d', lies', alike, kept⟩
  have inside : a < s.arrays.size := (Array.getElem?_eq_some_iff.mp lies).1
  exact ⟨d', lies', alike, fun untouched => kept fun wrote => untouched (more a inside wrote)⟩

/-- An array in memory is packed as it was, and declares the same elements. -/
theorem Later.alike {a : Nat} (h : s.Later written t) (inside : 0 < (s.array a).length) : (s.array a).Alike (t.array a) := by
  have lies := array_lies inside
  rcases h.arrays a _ lies with ⟨d', lies', alike, -⟩
  rw [array_of_lies lies']
  exact alike

/-- An array that is not written to is the same. -/
theorem Later.same_array {a : Nat} (h : s.Later written t) (inside : 0 < (s.array a).length) (kept : ¬written a) :
    t.array a = s.array a := by
  rcases h.arrays a _ (array_lies inside) with ⟨d', lies', -, same⟩
  rw [array_of_lies lies', same kept]

end Store

section Rejected

variable {s t u : Store} {element : Shape} {a i : Nat} {v w x : Value} {f : Fault}

/-! ## Single elements -/

/-- What an array holds for an element `x` that was made to fit: what it takes for the value that `x` was made into. Since `s`,
nothing was written to but the array, and arrays that are defaults. -/
def Store.Refits (s : Store) (element : Shape) (a : Nat) (x held : Value) : Prop :=
  ∃ u u' w, s.Later (fun b => b = a ∨ element.Rewrites b) u ∧ (StoreM.conform element x).run.run u = (.ok w, u') ∧
    ∃ u'', (StoreM.forElement (s.array a).element (u'.array a).cells w).run.run u' = (.ok held, u'')

theorem Store.Refits.after {held : Value} (h : t.Refits element a x held) (inside : 0 < (s.array a).length)
    (first : s.Later (fun b => b = a ∨ element.Rewrites b) t) : s.Refits element a x held := by
  rcases h with ⟨u, u', w, later, fits, u'', takes⟩
  rw [(first.alike inside).element] at takes
  exact ⟨u, u', w, first.trans later, fits, u'', takes⟩

namespace StoreM

/-- A computation whose fault is replaced by another does the same. -/
theorem run_rethrow {α : Type} (x : StoreM α) (g : Fault → Fault) (s : Store) :
    (tryCatch x fun f => throw (g f)).run.run s = ((x.run.run s).1.mapError g, (x.run.run s).2) := by
  rw [ExceptT.run_tryCatch, StateT.run_bind]
  rcases StateT.run (ExceptT.run x) s with ⟨r, t⟩
  cases r with
  | ok a => rfl
  | error f => rfl

theorem run_of_rethrow {α : Type} {x : StoreM α} {g : Fault → Fault} {b : α}
    (run : (tryCatch x fun f => throw (g f)).run.run s = (.ok b, t)) : x.run.run s = (.ok b, t) := by
  rw [run_rethrow] at run
  rcases h : x.run.run s with ⟨r, u⟩
  rw [h] at run
  cases r with
  | ok b => exact run
  | error f => cases run

/-- An element is made to fit, and put back into its place. A fault of making it fit names the place. -/
def fitElement (conform : Value → StoreM Value) (a i : Nat) (v : Value) : StoreM Unit := do
  let w ← tryCatch (conform v) fun f => throw { f with message := "element " ++ toString i ++ ": " ++ f.message }
  arraySet a i w

theorem conformElements_cons (conform : Value → StoreM Value) (a i : Nat) (v : Value) (rest : List Value) :
    conformElements conform a i (v :: rest) = (do
      fitElement conform a i v
      conformElements conform a (i + 1) rest) := by
  rw [conformElements, fitElement, bind_assoc]

/-- Only null and json values are made to fit maps and records. -/
theorem data_of_conform (single : element.isArray = false) (run : (conform element v).run.run s = (.ok w, t)) :
    v.isNull = true ∨ ∃ b, v = .json b := by
  have object {what : Text} {es : List (Text × Node)} {u : Store} (looked : (objectEntries what v).run.run s = (.ok es, u)) :
      ∃ b, v = .json b := by
    have looks : Makes (fun _ => False) _ (objectEntries what v) s := makes_objectEntries what v
    rcases looks.of_run looked with ⟨-, -, b, -, json, -⟩
    exact ⟨b, json⟩
  by_cases null : v.isNull = true
  · exact .inl null
  right
  cases element with
  | array _ => cases single
  | map sorted =>
    rw [conform, Shape.depth, conformTo, if_neg null] at run
    rcases Signature.run_bind_ok run with ⟨es, u, looked, -⟩
    exact object looked
  | record fields =>
    rw [conform, Shape.depth, conformTo, if_neg null] at run
    rcases Signature.run_bind_ok run with ⟨es, u, looked, -⟩
    exact object looked

/-- A map or record is made to fit without writing to any array that is not among the defaults. -/
theorem makes_conform_single (single : element.isArray = false) (flat : element.Flat) (v : Value) :
    Makes element.Rewrites (fun _ _ => True) (conform element v) s := by
  refine (makes_conformTo_flat element.depth (Nat.le_refl _) flat v).weaken ?_
  rintro b (⟨-, array⟩ | rewrites)
  · rw [single] at array
    cases array
  · exact rewrites

/-- A write inside an array that fails writes to no array. -/
theorem refused_arraySet_inside (inside : i < (s.array a).length) (run : (arraySet a i v).run.run s = (.error f, t)) :
    s.Later (fun _ => False) t := by
  rw [arraySet_inside (Store.array_lies inside) inside] at run
  have makes : Makes (fun _ => False) _ (forElement (s.array a).element (s.array a).cells v) s := makes_forElement v _ _
  rcases Signature.run_bind_error run with converting | ⟨w, u, converted, putting⟩
  · have later := makes.1
    rw [converting] at later
    exact later
  · rw [refused_arrayPut putting]
    exact (makes.of_run converted).1

/-- A write inside an array that is not packed puts there what the array takes for the value, and leaves all else. -/
theorem stored_arraySet (inside : i < (s.array a).length) (laid : (s.array a).cells.kind = .array)
    (run : (arraySet a i v).run.run s = (.ok (), t)) :
    (∃ w u, (forElement (s.array a).element (s.array a).cells v).run.run s = (.ok w, u) ∧ (t.array a).cells.get? i = some w) ∧
      s.Later (· = a) t ∧ s.KeepsBut (· = .element a i) t := by
  have later : s.Later (· = a) t := ((makes_arraySet inside v).of_run run).1
  have but : s.LaterBut (Eq (.array a)) t := Eval.laterBut_arraySet run
  have lies := Store.array_lies inside
  obtain ⟨items, boxed⟩ : ∃ items, (s.array a).cells = .boxed items := by
    cases cells : (s.array a).cells with
    | boxed items => exact ⟨items, rfl⟩
    | _ =>
      rw [cells] at laid
      cases laid
  rw [arraySet_inside lies inside] at run
  rcases Signature.run_bind_ok run with ⟨w, u, converted, putting⟩
  rcases done_arrayPut (forElement_keeps lies converted) putting with ⟨c, put, lies'⟩
  rw [boxed] at put
  cases put
  have now : (t.array a).cells = .boxed (items.setIfInBounds i w) := by rw [Store.array_of_lies lies']
  have room : i < items.size := by
    rw [ArrayData.length, boxed] at inside
    exact inside
  refine ⟨⟨w, u, converted, ?_⟩, later, but.keepsBut (fun c same => ⟨a, same.symm⟩) ?_⟩
  · rw [now]
    show (items.setIfInBounds i w)[i]? = some w
    rw [Array.getElem?_setIfInBounds, if_pos rfl, if_pos room]
  · rintro _ ⟨⟩ j x here kept
    rw [boxed] at here
    rw [now]
    show (items.setIfInBounds i w)[j]? = some x
    rw [Array.getElem?_setIfInBounds, if_neg fun same => kept (by rw [same])]
    exact here

end StoreM

/-- The slots that are changed when elements of an array are made to fit: theirs, and those of arrays that are defaults. -/
inductive Shape.Changes (element : Shape) (v : Value) (places : Nat → Prop) : Slot → Prop
  | element {a j : Nat} (own : v = .array a) (place : places j) : Changes element v places (.element a j)
  | default {b j : Nat} (rewrites : element.Rewrites b) : Changes element v places (.element b j)

theorem Shape.Changes.elements {places : Nat → Prop} {slot : Slot} (h : element.Changes v places slot) : ∃ a j, slot = .element a j := by
  cases h with
  | element _ _ => exact ⟨_, _, rfl⟩
  | default _ => exact ⟨_, _, rfl⟩

theorem Shape.Changes.mono {places places' : Nat → Prop} {slot : Slot} (h : element.Changes v places slot)
    (more : ∀ j, places j → places' j) : element.Changes v places' slot := by
  cases h with
  | element own place => exact .element own (more _ place)
  | default rewrites => exact .default rewrites

namespace StoreM

/-- An element that is refused is left in its place, as are all others. -/
theorem refused_fitElement (single : element.isArray = false) (flat : element.Flat) (inside : i < (s.array a).length)
    (run : (fitElement (conform element) a i x).run.run s = (.error f, t)) : s.Later element.Rewrites t := by
  have makes : Makes element.Rewrites (fun _ _ => True) (tryCatch (conform element x) fun f =>
    throw { f with message := "element " ++ toString i ++ ": " ++ f.message }) s := makes_rethrow (makes_conform_single single flat x)
  rcases Signature.run_bind_error run with fitting | ⟨w, u, fitted, setting⟩
  · have later := makes.1
    rw [fitting] at later
    exact later
  · have later := (makes.of_run fitted).1
    have room : i < (u.array a).length := by rwa [length_later later (Nat.zero_lt_of_lt inside)]
    exact later.trans ((refused_arraySet_inside room setting).weaken fun _ => False.elim)

/-- An element that is made to fit lies in its place as what it was made into. -/
theorem done_fitElement (single : element.isArray = false) (flat : element.Flat) (inside : i < (s.array a).length)
    (laid : (x.isNull = true ∨ ∃ b, x = .json b) → (s.array a).cells.kind = .array)
    (run : (fitElement (conform element) a i x).run.run s = (.ok (), t)) :
    (∃ w, s.Refits element a x w ∧ (t.array a).cells.get? i = some w) ∧ s.Later (fun b => b = a ∨ element.Rewrites b) t ∧
      s.KeepsBut (element.Changes (.array a) (· = i)) t := by
  rcases Signature.run_bind_ok run with ⟨w, u, fitted, setting⟩
  replace fitted : (conform element x).run.run s = (.ok w, u) := run_of_rethrow fitted
  have positive := Nat.zero_lt_of_lt inside
  have first := ((makes_conform_single single flat x).of_run fitted).1
  have alike := first.alike positive
  have room : i < (u.array a).length := by rwa [length_later first positive]
  have boxed : (u.array a).cells.kind = .array := by
    rw [alike.kind]
    exact laid (data_of_conform single fitted)
  rcases stored_arraySet room boxed setting with ⟨⟨w', u', takes, here⟩, next, kept⟩
  refine ⟨⟨w', ⟨s, u, w, .refl s, fitted, u', ?_⟩, here⟩, ?_, ?_⟩
  · rwa [← alike.element]
  · exact (first.weaken fun _ => Or.inr).trans (next.weaken fun _ => Or.inl)
  · have before : s.KeepsBut (element.Changes (.array a) (· = i)) u := first.keepsElements fun b rewrites j => .default rewrites
    refine before.trans (kept.weaken (fun slot same => ⟨a, i, same⟩) ?_)
    rintro b j - ⟨⟩
    exact .element rfl rfl

/-! ## Runs of elements -/

/-- Elements that were all made to fit lie in their places as what they were made into, and all else is as it was. -/
theorem fitted_conformElements (single : element.isArray = false) (flat : element.Flat) {vs : List Value}
    (room : i + vs.length ≤ (s.array a).length)
    (laid : ∀ x ∈ vs, (x.isNull = true ∨ ∃ b, x = .json b) → (s.array a).cells.kind = .array)
    (run : (conformElements (conform element) a i vs).run.run s = (.ok (), t)) :
    s.Later (fun b => vs ≠ [] ∧ b = a ∨ element.Rewrites b) t ∧
      s.KeepsBut (element.Changes (.array a) fun j => i ≤ j ∧ j < i + vs.length) t ∧
      (¬element.Rewrites a → ∀ k x, vs[k]? = some x → ∃ w, s.Refits element a x w ∧ (t.array a).cells.get? (i + k) = some w) := by
  induction vs generalizing i s with
  | nil =>
    cases run
    exact ⟨.refl _, .refl _, fun _ k x none => nomatch none⟩
  | cons v rest ih =>
    rw [List.length_cons] at room
    have inside : i < (s.array a).length := by omega
    have positive := Nat.zero_lt_of_lt inside
    rw [conformElements_cons] at run
    rcases Signature.run_bind_ok run with ⟨_, u, first, run⟩
    rcases done_fitElement single flat inside (laid v (List.mem_cons_self ..)) first with ⟨⟨w, refits, here⟩, next, kept⟩
    have room' : i + 1 + rest.length ≤ (u.array a).length := by
      rw [length_later next positive]
      omega
    have laid' : ∀ x ∈ rest, (x.isNull = true ∨ ∃ b, x = .json b) → (u.array a).cells.kind = .array := by
      intro x hx data
      rw [(next.alike positive).kind]
      exact laid x (List.mem_cons_of_mem _ hx) data
    rcases ih room' laid' run with ⟨later, kept', fitted⟩
    refine ⟨?later, ?kept, ?fitted⟩
    case later =>
      have own : ∀ b, b = a ∨ element.Rewrites b → v :: rest ≠ [] ∧ b = a ∨ element.Rewrites b := by
        rintro b (same | rewrites)
        · exact .inl ⟨List.cons_ne_nil v rest, same⟩
        · exact .inr rewrites
      exact (next.weaken own).trans (later.weaken fun b wrote => own b (wrote.imp_left And.right))
    case kept =>
      have early : s.KeepsBut (element.Changes (.array a) fun j => i ≤ j ∧ j < i + (rest.length + 1)) u :=
        kept.weaken (fun slot => Shape.Changes.elements) fun b j _ changes => changes.mono (by omega)
      have late : u.KeepsBut (element.Changes (.array a) fun j => i ≤ j ∧ j < i + (rest.length + 1)) t :=
        kept'.weaken (fun slot => Shape.Changes.elements) fun b j _ changes => changes.mono (by omega)
      exact early.trans late
    case fitted =>
      intro apart k x hx
      cases k with
      | zero =>
        cases hx
        refine ⟨w, refits, kept'.elements a i w here ?_⟩
        rintro (⟨-, first, -⟩ | rewrites)
        · omega
        · exact apart rewrites
      | succ k =>
        rcases fitted apart k x hx with ⟨w', refits', here'⟩
        refine ⟨w', refits'.after positive next, ?_⟩
        rwa [Nat.add_right_comm] at here'

/-- When elements are not all made to fit, one of them is refused, and those before it were made to fit. -/
theorem refused_conformElements {conform : Value → StoreM Value} {vs : List Value}
    (run : (conformElements conform a i vs).run.run s = (.error f, t)) : ∃ done x rest u, vs = done ++ x :: rest ∧
      (conformElements conform a i done).run.run s = (.ok (), u) ∧ (fitElement conform a (i + done.length) x).run.run u = (.error f, t) := by
  induction vs generalizing i s with
  | nil => cases run
  | cons v rest ih =>
    rw [conformElements_cons] at run
    rcases Signature.run_bind_error run with first | ⟨_, u, first, run⟩
    · exact ⟨[], v, rest, s, rfl, rfl, first⟩
    · rcases ih run with ⟨done, x, rest', u', rfl, fitted, refused⟩
      refine ⟨v :: done, x, rest', u', rfl, ?_, ?_⟩
      · rw [conformElements_cons]
        exact (bind_of_ok first).trans fitted
      · rwa [List.length_cons, Nat.add_comm done.length, ← Nat.add_assoc]

end StoreM

/-! ## Arrays -/

/-- Memory `t` after an array was rejected in memory `s` when its first `i` elements had been made to fit. -/
structure Store.FittedUpTo (element : Shape) (v : Value) (i : Nat) (s t : Store) : Prop where
  /-- All variables have the values that they had. -/
  frames : t.frames = s.frames
  /-- No array is written to but the one that was rejected, and that only if an element was made to fit. Exempt are arrays that are
  defaults of fields, which are made to fit where they lie. -/
  later : s.Later (fun b => 0 < i ∧ v = .array b ∨ element.Rewrites b) t
  /-- All slots show what they did, but for those elements. -/
  kept : s.KeepsBut (element.Changes v (· < i)) t
  /-- These elements are what was made of them. -/
  fitted : ∀ a, v = .array a → ¬element.Rewrites a → ∀ j < i, ∃ x w, (s.array a).cells.get? j = some x ∧
    s.Refits element a x w ∧ (t.array a).cells.get? j = some w

/-- Nothing was made to fit yet. -/
theorem Store.FittedUpTo.none (frames : t.frames = s.frames) (later : s.Later element.Rewrites t) : s.FittedUpTo element v 0 t where
  frames := frames
  later := later.weaken fun _ => Or.inr
  kept := later.keepsElements fun b rewrites j => .default rewrites
  fitted := by
    intro a _ _ j impossible
    exact absurd impossible (Nat.not_lt_zero j)

/-- An array that was made for the value is no array that was there. -/
theorem Store.FittedUpTo.of_new (h : u.FittedUpTo element (.array a) i t) (frames : u.frames = s.frames)
    (first : s.Later (fun _ => False) u) (new : s.arrays.size ≤ a) : s.FittedUpTo element v 0 t := by
  refine .none (h.frames.trans frames) (((first.weaken fun _ => False.elim).trans h.later).within ?_)
  rintro b inside (⟨-, ⟨⟩⟩ | rewrites)
  · omega
  · exact rewrites

namespace StoreM

/-- **An array that is rejected.** One of its elements is refused, or what it is made into is not taken by the array. Those before it
have been made to fit, and nothing else has changed. -/
theorem rejected_conform (flat : (Shape.array element).Flat) (run : (conform (.array element) v).run.run s = (.error f, t)) :
    ∃ a i x u, v = .array a ∧ (s.array a).cells.get? i = some x ∧ s.Later (fun b => b = a ∨ element.Rewrites b) u ∧
      (fitElement (conform element) a i x).run.run u = (.error f, t) ∧ s.FittedUpTo element v i t := by
  rcases flat with ⟨single, flat⟩
  have frames : t.frames = s.frames := by
    have code := code_conform (.array element) v s
    rw [run] at code
    exact congrArg Prod.snd code
  cases v with
  | array a =>
    have run : (conformElements (conform element) a 0 (s.array a).cells.toList).run.run s = (.error f, t) := by
      rcases Signature.run_bind_error (show (do
        conformElements (conform element) a 0 (s.array a).cells.toList
        pure (.array a) : StoreM Value).run.run s = (.error f, t) from run) with refused | ⟨_, _, _, impossible⟩
      · exact refused
      · cases impossible
    rcases refused_conformElements run with ⟨done, x, rest, u, elements, fitted, refused⟩
    have length : done.length < (s.array a).length := by
      rw [ArrayData.length, ← Cells.length_toList, elements, List.length_append, List.length_cons]
      omega
    have positive := Nat.zero_lt_of_lt length
    have laid : ∀ y ∈ done, (y.isNull = true ∨ ∃ b, y = .json b) → (s.array a).cells.kind = .array := by
      intro y hy data
      have mem : y ∈ (s.array a).cells.toList := elements ▸ List.mem_append_left _ hy
      rcases boxed_of_data mem data with ⟨items, boxed⟩
      rw [boxed]
      rfl
    rw [Nat.zero_add] at refused
    have places (j : Nat) (hj : j < done.length) : ∃ y, done[j]? = some y ∧ (s.array a).cells.get? j = some y := by
      refine ⟨done[j], List.getElem?_eq_getElem hj, ?_⟩
      rw [Cells.get?_eq, elements, List.getElem?_append_left hj, List.getElem?_eq_getElem hj]
    rcases fitted_conformElements single flat (by omega) laid fitted with ⟨before, kept, held⟩
    have last : u.Later element.Rewrites t := by
      refine refused_fitElement single flat ?_ refused
      rwa [length_later before positive]
    refine ⟨a, done.length, x, u, rfl, ?_, ?_, refused, frames, ?_, ?_, ?_⟩
    · rw [Cells.get?_eq, elements, List.getElem?_append_right (Nat.le_refl _), Nat.sub_self]
      rfl
    · exact before.weaken fun b wrote => wrote.imp_left And.right
    · refine (before.weaken ?_).trans (last.weaken fun b => Or.inr)
      rintro b (⟨some, rfl⟩ | rewrites)
      · exact .inl ⟨List.length_pos_iff.mpr some, rfl⟩
      · exact .inr rewrites
    · refine (kept.weaken (fun slot => Shape.Changes.elements) fun b j _ changes => changes.mono ?_).trans
        (last.keepsElements fun b rewrites j => .default rewrites)
      intro j place
      omega
    · rintro _ ⟨⟩ apart j hj
      rcases places j hj with ⟨y, listed, here⟩
      rcases held apart j y listed with ⟨w, refits, there⟩
      rw [Nat.zero_add] at there
      refine ⟨y, w, here, refits, ?_⟩
      rwa [last.same_array (by rwa [length_later before positive]) apart]
  | _ => cases run

/-- What is converted to an array is the value itself, or an array that is new. -/
theorem coerce_same_or_new {k : Kind} (run : (coerce v k).run.run s = (.ok (.array a), t)) :
    v = .array a ∧ t = s ∨ s.arrays.size ≤ a := by
  have packed {target : Kind} {d : ArrayData} (run : (repack target d).run.run s = (.ok (.array a), t)) : s.arrays.size ≤ a := by
    unfold repack at run
    rw [run_get_bind] at run
    dsimp only at run
    split at run
    · cases run
      exact Nat.le_refl _
    · cases run
  -- arrays come of conversions to kinds of arrays only
  have array : k = .invalid ∨ k = .any ∨ k.isArray = true := by
    rcases holds_coerce run with invalid | (any | kind | ⟨rfl, -⟩) | ⟨⟨⟩, -⟩
    · exact .inl invalid
    · exact .inr (.inl any)
    · rw [← kind]
      exact .inr (.inr (Cells.isArray_kind _))
    · exact .inr (.inr rfl)
  by_cases plain : k = .array
  · subst plain
    have makes : Makes (fun _ => False) _ (coerce v .array) s := makes_coerce_array v
    rcases (makes.of_run run).2 with ⟨rfl, rfl⟩ | ⟨_, _, ⟨⟩, -, -, new⟩
    · exact .inl ⟨rfl, rfl⟩
    · exact .inr new
  unfold coerce at run
  rw [run_kindOf] at run
  split at run
  · cases run
    exact .inl ⟨rfl, rfl⟩
  split at run
  · cases k <;> cases run
  split at run
  case h_19 =>
    rw [run_get_bind] at run
    exact .inr (packed run)
  case h_20 =>
    rw [run_get_bind] at run
    exact .inr (packed run)
  case h_17 | h_18 => exact absurd rfl plain
  case h_21 => cases run
  all_goals rcases array with ⟨⟨⟩⟩ | ⟨⟨⟩⟩ | ⟨⟨⟩⟩

/-- An array that is made to fit is the same array with elements in the same layout. -/
theorem done_conform_array {v' : Value} (run : (conform (.array element) v).run.run s = (.ok v', t)) :
    v' = v ∧ t.kindOf v = s.kindOf v := by
  have later : s.Later (fun _ => True) t := ((makes_conform (.array element) v).of_run run).1
  cases v with
  | array a =>
    rcases Signature.run_bind_ok (show (do
      conformElements (conform element) a 0 (s.array a).cells.toList
      pure (.array a) : StoreM Value).run.run s = (.ok v', t) from run) with ⟨_, u, fitted, same⟩
    cases same
    refine ⟨rfl, ?_⟩
    by_cases inside : 0 < (s.array a).length
    · exact (later.alike inside).kind
    · have none : (s.array a).cells.toList = [] := by
        refine List.length_eq_zero_iff.mp ?_
        rw [Cells.length_toList]
        exact Nat.eq_zero_of_not_pos inside
      rw [none] at fitted
      cases fitted
      rfl
  | _ =>
    cases run
    exact ⟨rfl, rfl⟩

/-- A value that a kind holds is converted to it as it is. -/
theorem coerce_twice {k : Kind} (run : (coerce v k).run.run s = (.ok w, t)) (same : u.kindOf w = t.kindOf w) :
    (coerce w k).run.run u = (.ok w, u) := by
  refine coerce_of_holds ?_
  have held := holds_coerce run
  rw [Store.Holds, ← same] at held
  exact held

/-- What a conversion leaves when it fails. -/
theorem refused_coerce {k : Kind} {name : Text} (run : (Eval.assigning v k name (coerce v k)).run.run s = (.error f, t)) :
    t.frames = s.frames ∧ s.Later (fun _ => False) t := by
  rw [Eval.assigning, run_kindOf, run_rethrow] at run
  have later := (makes_coerce v k : Makes (fun _ => False) _ (coerce v k) s).1
  have code := code_coerce v k s
  rw [(Prod.ext_iff.mp run).2] at later code
  exact ⟨congrArg Prod.snd code, later⟩

end StoreM

/-! ## Variables -/

namespace Eval

open StoreM

/-- A name that is declared as an array of maps or records is to get a value: a variable that is assigned to, or a variable, a constant
or a parameter that is defined. -/
inductive Receives (element : Shape) (v : Value) (s : Store) : StoreM Unit → Prop
  | assigned {scope : Scope} {name : Text} {frame : Nat} {b : Binding} (bound : s.lookup? scope name = some (frame, b))
      (shape : b.shape = some (.array element)) : Receives element v s (assign scope name v)
  | defined (scope : Scope) (name : Text) (kind : Kind) (constant : Bool) :
      Receives element v s (declareAs scope name kind (some (.array element)) v constant)

/-- A name does not get a value when it is a constant, when the value can not be converted, or when what it is converted to is
rejected. -/
theorem Receives.refused {x : StoreM Unit} (h : Receives element v s x) (run : x.run.run s = (.error f, t)) :
    t.frames = s.frames ∧ s.Later (fun _ => False) t ∨ ∃ k w u, (coerce v k).run.run s = (.ok w, u) ∧
      (conform (.array element) w).run.run u = (.error f, t) := by
  cases h with
  | @assigned scope name frame b bound shape =>
    by_cases constant : b.constant = true
    · rw [assign, run_get_bind, bound] at run
      dsimp only at run
      rw [if_pos constant] at run
      cases run
      exact .inl ⟨rfl, .refl s⟩
    rw [run_assign bound (Bool.eq_false_iff.mpr constant)] at run
    rcases Signature.run_bind_error run with refused | ⟨_, _, _, impossible⟩
    · unfold refit at refused
      rw [shape] at refused
      cases kind : b.kind with
      | none =>
        rw [kind] at refused
        exact .inr ⟨.any, v, s, coerce_of_holds (.inr (.inl (.inl rfl))), refused⟩
      | some k =>
        rw [kind] at refused
        rcases Signature.run_bind_error refused with failed | ⟨w, u, converted, rejected⟩
        · left
          rw [run_rethrow] at failed
          have later := (makes_coerce v k : Makes (fun _ => False) _ (coerce v k) s).1
          have code := code_coerce v k s
          rw [(Prod.ext_iff.mp failed).2] at later code
          exact ⟨congrArg Prod.snd code, later⟩
        · exact .inr ⟨k, w, u, run_of_rethrow converted, rejected⟩
    · cases impossible
  | defined scope name kind constant =>
    rw [declareAs] at run
    rcases Signature.run_bind_error run with failed | ⟨w, u, converted, rest⟩
    · exact .inl (refused_coerce failed)
    replace converted : (coerce v kind).run.run s = (.ok w, u) := by
      rw [assigning, run_kindOf] at converted
      exact run_of_rethrow converted
    refine .inr ⟨kind, w, u, converted, ?_⟩
    cases constant with
    | true =>
      rcases Signature.run_bind_error rest with rejected | ⟨_, _, _, impossible⟩
      · exact rejected
      · cases impossible
    | false =>
      -- the conversions before and after it is made to fit find the value as it must be
      rcases Signature.run_bind_error rest with failed | ⟨w', u', again, fitting⟩
      · cases (coerce_twice converted rfl).symm.trans failed
      cases (coerce_twice converted rfl).symm.trans again
      rcases Signature.run_bind_error fitting with rejected | ⟨w', u', fitted, binding⟩
      · exact rejected
      rcases done_conform_array fitted with ⟨rfl, same⟩
      rcases Signature.run_bind_error binding with failed | ⟨_, _, _, impossible⟩
      · cases (coerce_twice converted same).symm.trans failed
      · cases impossible

/-- **A rejected array.** An array that is assigned to a variable, or with which a variable, constant or parameter is defined, and that
is rejected, is left as it was from the element that was refused on. The elements before it have been made to fit where they lie.
All variables, all other arrays and all json values are as they were, but that arrays which are defaults of fields are made to fit as
well, and that doubles in json data may have become whole numbers. -/
theorem Receives.rejected {x : StoreM Unit} (h : Receives element v s x) (flat : (Shape.array element).Flat)
    (run : x.run.run s = (.error f, t)) : ∃ i, s.FittedUpTo element v i t ∧ (0 < i → ∃ a y u, v = .array a ∧
      (s.array a).cells.get? i = some y ∧ s.Later (fun b => b = a ∨ element.Rewrites b) u ∧
      (fitElement (conform element) a i y).run.run u = (.error f, t)) := by
  have zero (fitted : s.FittedUpTo element v 0 t) : ∃ i, s.FittedUpTo element v i t ∧ (0 < i → ∃ a y u, v = .array a ∧
      (s.array a).cells.get? i = some y ∧ s.Later (fun b => b = a ∨ element.Rewrites b) u ∧
      (fitElement (conform element) a i y).run.run u = (.error f, t)) :=
    ⟨0, fitted, fun impossible => absurd impossible (Nat.lt_irrefl 0)⟩
  rcases h.refused run with ⟨frames, later⟩ | ⟨k, w, u, converted, rejected⟩
  · exact zero (.none frames (later.weaken fun _ => False.elim))
  rcases rejected_conform flat rejected with ⟨a, i, y, u', rfl, here, before, refused, fitted⟩
  rcases coerce_same_or_new converted with ⟨rfl, rfl⟩ | new
  · exact ⟨i, fitted, fun _ => ⟨a, y, u', rfl, here, before, refused⟩⟩
  · have later := ((makes_coerce v k : Makes (fun _ => False) _ (coerce v k) s).of_run converted).1
    have code := code_coerce v k s
    rw [converted] at code
    exact zero (fitted.of_new (congrArg Prod.snd code) later new)

/-- Records with a number, and with another one that is five by default. -/
def numbered : Shape := .record [.mk "a" .int none false 0 none, .mk "b" .int none false 0 (some (.int 5))]

/-- Memory with two variables: `x` is declared as an array of such records, and `y` holds an array of two json values, the second of
which is none. -/
def numberedMemory : Store :=
  { Store.initial with
    arrays := #[⟨.any, false, .boxed #[.json 0, .json 1]⟩]
    boxes := #[.object 0, .object 1]
    objects := #[[("a", .int 1)], [("a", .text "x")]]
    frames := #[⟨[("x", ⟨.null, false, some .array, some (.array numbered)⟩), ("y", ⟨.array 0, false, none, none⟩)], none⟩] }

/-- The assignment of `y` to `x` is rejected at the second element, when the first has been made to fit. -/
theorem rejected_numbered : ∃ f t, (assign .initial "x" (.array 0)).run.run numberedMemory = (.error f, t) ∧
    numberedMemory.FittedUpTo numbered (.array 0) 1 t ∧
    ∃ u, (fitElement (conform numbered) 0 1 (.json 1)).run.run u = (.error f, t) := by
  have bound : numberedMemory.lookup? .initial "x" = some (0, ⟨.null, false, some .array, some (.array numbered)⟩) := rfl
  obtain ⟨f, run⟩ := StoreM.run_of_not_isOk (x := assign .initial "x" (.array 0)) (s := numberedMemory) (by decide +kernel)
  have flat : (Shape.array numbered).Flat := ⟨rfl, trivial, trivial, trivial⟩
  obtain ⟨i, fitted, refused⟩ := Receives.rejected (.assigned bound rfl) flat run
  rcases i with _ | _ | i
  · -- the array would be as it was, but its first element is a copy
    obtain ⟨d, lies, -, kept⟩ := fitted.later.arrays 0 _ rfl
    have unwritten : ¬(0 < 0 ∧ Value.array 0 = .array 0 ∨ numbered.Rewrites 0) := by
      rintro (⟨impossible, -⟩ | impossible | impossible | impossible)
      · exact Nat.lt_irrefl 0 impossible
      all_goals exact impossible
    rw [kept unwritten] at lies
    exact absurd (congrArg (Option.map fun d => (d.cells.get? 0).map numberedMemory.inspect) lies) (by decide +kernel)
  · obtain ⟨_, _, u, ⟨⟩, ⟨⟩, -, refused⟩ := refused Nat.one_pos
    exact ⟨f, _, run, fitted, u, refused⟩
  · obtain ⟨_, _, _, ⟨⟩, here, -⟩ := refused (Nat.succ_pos _)
    cases here

/-- The first element that `y` holds has a default afterwards that it did not have before. -/
theorem rejected_half_fitted : ∃ f t, (assign .initial "x" (.array 0)).run.run numberedMemory = (.error f, t) ∧
    (numberedMemory.lookup? .initial "y").map (fun y => numberedMemory.inspect y.2.value) =
      some "[\x7b\"a\":1\x7d, \x7b\"a\":\"x\"\x7d]" ∧
    (t.lookup? .initial "y").map (fun y => t.inspect y.2.value) = some "[\x7b\"a\":1,\"b\":5\x7d, \x7b\"a\":\"x\"\x7d]" := by
  obtain ⟨f, run⟩ := StoreM.run_of_not_isOk (x := assign .initial "x" (.array 0)) (s := numberedMemory) (by decide +kernel)
  exact ⟨f, _, run, by decide +kernel, by decide +kernel⟩

end Eval

end Rejected

end ScriptEngine
