import Mathlib.Data.List.Pairwise
import ScriptEngine.Proofs.OrderedValues
import ScriptEngine.Store.Sort
/-!
# Runs of sorted values

A sorting goes on past values that cannot be compared and keeps the first fault. Values can be compared when they are of one class, so
a value that is compared with one of a list in which all can be compared is known to fit the whole list.

Values of one class without doubles are in a total order up to ties. Runs that are in order are improved by moving values: what is
moved past other values comes strictly before all of them, so values that tie keep their sequence.
-/

namespace ScriptEngine

/-! ## Comparisons -/

namespace Sorting

variable {α β : Type} {P Q : Prop}

/-- A computation gives `a`. Its comparisons all succeed if and only if `clean` holds, and otherwise a fault of type is kept unless
there was a fault before. -/
def Gives (x : Sorting α) (a : α) (clean : Prop) : Prop :=
  ∃ fault : Option Fault, (∀ first, x first = (a, first.or fault)) ∧ (fault = none ↔ clean) ∧ ∀ f, fault = some f → f.kind = .type

theorem gives_pure (a : α) : Gives (pure a) a True := by
  refine ⟨none, ?_, by simp, by simp⟩
  intro first
  rw [Option.or_none]
  rfl

theorem Gives.bind {x : Sorting α} {g : α → Sorting β} {a : α} {b : β} (hx : Gives x a P) (hg : Gives (g a) b Q) :
    Gives (x >>= g) b (P ∧ Q) := by
  rcases hx with ⟨e, runX, cleanX, typeX⟩
  rcases hg with ⟨e', runG, cleanG, typeG⟩
  refine ⟨e.or e', ?_, ?_, ?_⟩
  · intro first
    show (match x first with | (a, first) => g a first) = _
    rw [runX]
    show g a (first.or e) = _
    rw [runG, Option.or_assoc]
  · rw [Option.or_eq_none_iff, cleanX, cleanG]
  · intro f kept
    cases e with
    | none => exact typeG f (by simpa using kept)
    | some e => exact typeX f (by simpa using kept)

theorem Gives.congr {x : Sorting α} {a : α} (h : Gives x a P) (same : P ↔ Q) : Gives x a Q := by
  rcases h with ⟨e, run, clean, type⟩
  exact ⟨e, run, clean.trans same, type⟩

/-- What is computed from a result without comparisons. -/
theorem Gives.map {x : Sorting α} {a : α} (h : Gives x a P) (f : α → β) : Gives (do pure (f (← x))) (f a) P :=
  (h.bind (gives_pure (f a))).congr (and_iff_left trivial)

end Sorting

/-! ## The order in which values are sorted -/

namespace Store

variable {s : Store} {asc : Bool} {a b c v : Value} {cls : OrderClass}

/-- Two values can be compared with each other. -/
def Comparable (s : Store) (a b : Value) : Prop := ∃ o, s.order a b = .ok o

/-- Values can be compared when they are of one class. -/
theorem comparable_iff : s.Comparable a b ↔ a.SameClass b := by
  constructor
  · intro h
    rcases h with ⟨o, ordered⟩
    by_contra apart
    rcases order_apart (s := s) apart with ⟨f, fault, -⟩
    rw [ordered] at fault
    cases fault
  · intro h
    rcases h with ⟨cls, classA, classB⟩
    cases cls with
    | number =>
      -- whether they are compared as whole numbers or as doubles, both are numbers
      cases a <;> cases classA <;> cases b <;> cases classB <;> exact ⟨_, rfl⟩
    | text =>
      rcases Value.string_of_text classA with ⟨t, rfl⟩
      rcases Value.string_of_text classB with ⟨u, rfl⟩
      exact ⟨_, rfl⟩
    | date =>
      rcases Value.date_of_date classA with ⟨d, rfl⟩
      rcases Value.date_of_date classB with ⟨e, rfl⟩
      exact ⟨_, rfl⟩
    | truth =>
      rcases Value.bool_of_truth classA with ⟨p, rfl⟩
      rcases Value.bool_of_truth classB with ⟨q, rfl⟩
      exact ⟨_, rfl⟩

/-- A value comes before another in the rising or the falling order. -/
def comesBefore (s : Store) (ascending : Bool) (a b : Value) : Bool :=
  match s.order a b with
  | .ok o => o == if ascending then .lt else .gt
  | .error _ => false

/-- Two values are the same in the order. -/
def ties (s : Store) (a b : Value) : Bool :=
  match s.order a b with
  | .ok o => o == .eq
  | .error _ => false

/-- A value may stand before another. -/
def NotAfter (s : Store) (asc : Bool) (a b : Value) : Prop := s.comesBefore asc b a = false

/-- A value of a class that is no double is ordered by its rank. -/
def Ranks (s : Store) (cls : OrderClass) (v : Value) : Prop := v.orderClass? = some cls ∧ s.kindOf v ≠ .double

theorem Ranks.sameClass (ha : s.Ranks cls a) (hb : s.Ranks cls b) : a.SameClass b := ⟨cls, ha.1, hb.1⟩

theorem Ranks.order (ha : s.Ranks cls a) (hb : s.Ranks cls b) : s.order a b = .ok (List.compareLex compare a.rank b.rank) :=
  order_rank ha.2 hb.2 (ha.sameClass hb)

/-- A value comes before another in the rising order if its rank is less, and in the falling order if it is greater. -/
theorem comesBefore_iff (ha : s.Ranks cls a) (hb : s.Ranks cls b) :
    s.comesBefore asc a b = true ↔ List.compareLex compare (if asc then a.rank else b.rank) (if asc then b.rank else a.rank) = .lt := by
  unfold comesBefore
  rw [ha.order hb]
  cases asc with
  | true => exact beq_iff_eq
  | false => exact beq_iff_eq.trans Std.OrientedCmp.gt_iff_lt

theorem ties_iff (ha : s.Ranks cls a) (hb : s.Ranks cls b) : s.ties a b = true ↔ a.rank = b.rank := by
  unfold ties
  rw [ha.order hb]
  exact beq_iff_eq.trans Std.LawfulEqCmp.compare_eq_iff_eq

theorem notAfter_iff (ha : s.Ranks cls a) (hb : s.Ranks cls b) :
    s.NotAfter asc a b ↔ List.compareLex compare (if asc then a.rank else b.rank) (if asc then b.rank else a.rank) ≠ .gt := by
  unfold NotAfter
  rw [Bool.eq_false_iff, ne_eq, comesBefore_iff hb ha]
  cases asc with
  | true => exact not_congr Std.OrientedCmp.gt_iff_lt.symm
  | false => exact not_congr Std.OrientedCmp.gt_iff_lt.symm

theorem notAfter_refl (h : s.Ranks cls a) : s.NotAfter asc a a := by
  have same : List.compareLex compare a.rank a.rank = .eq := Std.ReflCmp.compare_self
  rw [notAfter_iff h h, ite_self, same]
  exact nofun

theorem notAfter_of_comesBefore (ha : s.Ranks cls a) (hb : s.Ranks cls b) (before : s.comesBefore asc a b = true) :
    s.NotAfter asc a b := by
  rw [notAfter_iff ha hb, (comesBefore_iff ha hb).mp before]
  exact nofun

theorem notAfter_trans (ha : s.Ranks cls a) (hb : s.Ranks cls b) (hc : s.Ranks cls c) (first : s.NotAfter asc a b)
    (second : s.NotAfter asc b c) : s.NotAfter asc a c := by
  rw [notAfter_iff ha hb] at first
  rw [notAfter_iff hb hc] at second
  rw [notAfter_iff ha hc]
  -- in the falling order the two steps are taken the other way round
  cases asc with
  | true =>
    exact Ordering.isLE_iff_ne_gt.mp (Std.TransCmp.isLE_trans (Ordering.isLE_iff_ne_gt.mpr first) (Ordering.isLE_iff_ne_gt.mpr second))
  | false =>
    exact Ordering.isLE_iff_ne_gt.mp (Std.TransCmp.isLE_trans (Ordering.isLE_iff_ne_gt.mpr second) (Ordering.isLE_iff_ne_gt.mpr first))

/-- Values that tie with one value do not come before each other. -/
theorem not_comesBefore_of_ties (hv : s.Ranks cls v) (ha : s.Ranks cls a) (hb : s.Ranks cls b) (tiesA : s.ties v a = true)
    (tiesB : s.ties v b = true) : s.comesBefore asc a b ≠ true := by
  rw [ties_iff hv ha] at tiesA
  rw [ties_iff hv hb] at tiesB
  have same : List.compareLex compare v.rank v.rank = .eq := Std.ReflCmp.compare_self
  rw [ne_eq, comesBefore_iff ha hb, ← tiesA, ← tiesB, ite_self, same]
  exact nofun

/-- Every value may stand before all that follow it. -/
def InOrder (s : Store) (asc : Bool) (vs : List Value) : Prop := vs.Pairwise (s.NotAfter asc)

end Store

namespace Sorting

variable {s : Store} {asc : Bool}

/-- A comparison tells which value comes before the other, and succeeds on values of one class. -/
theorem gives_before (s : Store) (asc : Bool) (a b : Value) : Gives (before s asc a b) (s.comesBefore asc a b) (a.SameClass b) := by
  unfold Store.comesBefore
  cases ordered : s.order a b with
  | ok o =>
    have same : a.SameClass b := Store.comparable_iff.mp ⟨o, ordered⟩
    have run : before s asc a b = pure (o == if asc then .lt else .gt) := by
      rw [before, ordered]
    rw [run]
    exact (gives_pure _).congr (iff_of_true trivial same)
  | error f =>
    have apart : ¬a.SameClass b := by
      intro same
      rcases Store.comparable_iff.mpr same with ⟨o, fine⟩
      rw [ordered] at fine
      cases fine
    refine ⟨some f, ?_, by simp [apart], ?_⟩
    · intro first
      rw [before, ordered]
      rfl
    · intro g same
      rcases Store.order_apart (s := s) apart with ⟨e, fault, type⟩
      rw [ordered] at fault
      cases fault
      cases same
      exact type

/-! ## Runs -/

variable {cls : OrderClass} {α β : Type} {P Q : Prop} {rs rs' rs'' : List (List Value)} {a b c d l r : List Value} {v : Value}

instance : Std.Symm Value.SameClass := ⟨fun _ _ h => h.symm⟩

/-- All values can be compared with each other. -/
def Alike (vs : List Value) : Prop := vs.Pairwise Value.SameClass

/-- When a value of one list can be compared with one of another, all of them can. -/
theorem alike_append {xs ys : List Value} {x y : Value} (left : Alike xs) (right : Alike ys) (hx : x ∈ xs) (hy : y ∈ ys)
    (same : x.SameClass y) : Alike (xs ++ ys) := by
  have joined {zs : List Value} {z w : Value} (alike : Alike zs) (hz : z ∈ zs) (self : z.SameClass z) (hw : w ∈ zs) : w.SameClass z := by
    by_cases here : w = z
    · rw [here]
      exact self
    · exact alike.forall hw hz here
  refine List.pairwise_append.mpr ⟨left, right, ?_⟩
  intro v hv w hw
  have first : v.SameClass x := joined left hx (same.trans same.symm) hv
  have second : w.SameClass y := joined right hy (same.symm.trans same) hw
  exact first.trans (same.trans second.symm)

/-- The runs `rs'` are made from `rs` by moving values. If `clean` holds, nothing has been put together that cannot be compared. If
all values can be compared and the runs were in order, `clean` does hold, the new runs are in order, and values that tie have
kept their sequence. -/
structure Improves (s : Store) (asc : Bool) (rs rs' : List (List Value)) (clean : Prop) : Prop where
  perm : rs'.flatten.Perm rs.flatten
  alike : clean → (∀ r ∈ rs, Alike r) → ∀ r ∈ rs', Alike r
  ordered : ∀ cls, (∀ v ∈ rs.flatten, s.Ranks cls v) → (∀ r ∈ rs, s.InOrder asc r) →
    clean ∧ (∀ r ∈ rs', s.InOrder asc r) ∧ ∀ v, s.Ranks cls v → rs'.flatten.filter (s.ties v) = rs.flatten.filter (s.ties v)

theorem Improves.refl (rs : List (List Value)) : Improves s asc rs rs True where
  perm := .refl _
  alike _ alike := alike
  ordered _ _ ordered := ⟨trivial, ordered, fun _ _ => rfl⟩

theorem Improves.trans (h : Improves s asc rs rs' P) (k : Improves s asc rs' rs'' Q) : Improves s asc rs rs'' (P ∧ Q) where
  perm := k.perm.trans h.perm
  alike clean alike := k.alike clean.2 (h.alike clean.1 alike)
  ordered cls ranks ordered := by
    rcases h.ordered cls ranks ordered with ⟨p, ordered', stable⟩
    rcases k.ordered cls (fun v mem => ranks v (h.perm.mem_iff.mp mem)) ordered' with ⟨q, ordered'', stable'⟩
    exact ⟨⟨p, q⟩, ordered'', fun v hv => (stable' v hv).trans (stable v hv)⟩

/-- Runs may stand before and behind those that are improved. -/
theorem Improves.within (h : Improves s asc rs rs' P) (before after : List (List Value)) :
    Improves s asc (before ++ rs ++ after) (before ++ rs' ++ after) P where
  perm := by
    simp only [List.flatten_append]
    exact (h.perm.append_left _).append_right _
  alike clean alike := by
    intro r mem
    simp only [List.mem_append] at mem alike
    rcases mem with (mem | mem) | mem
    · exact alike r (.inl (.inl mem))
    · exact h.alike clean (fun r mem => alike r (.inl (.inr mem))) r mem
    · exact alike r (.inr mem)
  ordered cls ranks ordered := by
    simp only [List.flatten_append, List.mem_append] at ranks ordered
    rcases h.ordered cls (fun v mem => ranks v (.inl (.inr mem))) (fun r mem => ordered r (.inl (.inr mem))) with ⟨clean, sorted, stable⟩
    refine ⟨clean, ?_, ?_⟩
    · intro r mem
      simp only [List.mem_append] at mem
      rcases mem with (mem | mem) | mem
      · exact ordered r (.inl (.inl mem))
      · exact sorted r mem
      · exact ordered r (.inr mem)
    · intro v hv
      simp only [List.flatten_append, List.filter_append, stable v hv]

/-- A computation improves runs; `view` tells which runs its result stands for. -/
def Sorts (s : Store) (asc : Bool) (x : Sorting α) (rs : List (List Value)) (view : α → List (List Value)) : Prop :=
  ∃ a P, Gives x a P ∧ Improves s asc rs (view a) P

theorem sorts_pure {view : α → List (List Value)} {a : α} (same : view a = rs) : Sorts s asc (pure a) rs view := by
  subst same
  exact ⟨a, True, gives_pure a, .refl _⟩

theorem Sorts.bind {x : Sorting α} {g : α → Sorting β} {view : α → List (List Value)} {view' : β → List (List Value)}
    (hx : Sorts s asc x rs view) (hg : ∀ a, Sorts s asc (g a) (view a) view') : Sorts s asc (x >>= g) rs view' := by
  rcases hx with ⟨a, P, gives, improves⟩
  rcases hg a with ⟨b, Q, gives', improves'⟩
  exact ⟨b, P ∧ Q, gives.bind gives', improves.trans improves'⟩

theorem Sorts.within {x : Sorting α} {view : α → List (List Value)} (h : Sorts s asc x rs view) (before after : List (List Value)) :
    Sorts s asc x (before ++ rs ++ after) fun a => before ++ view a ++ after := by
  rcases h with ⟨a, P, gives, improves⟩
  exact ⟨a, P, gives, improves.within before after⟩

/-! ### Exchanging parts of runs -/

/-- Values that come strictly before others may be moved past them: no two that tie change their sequence. -/
theorem filter_exchange (ranks : ∀ v ∈ b ++ c, s.Ranks cls v) (before : ∀ x ∈ b, ∀ y ∈ c, s.comesBefore asc y x = true)
    (hv : s.Ranks cls v) : (c ++ b).filter (s.ties v) = (b ++ c).filter (s.ties v) := by
  rw [List.filter_append, List.filter_append]
  by_cases tie : ∃ x ∈ b, s.ties v x = true
  · rcases tie with ⟨x, hx, tiesX⟩
    have none : c.filter (s.ties v) = [] := by
      rw [List.filter_eq_nil_iff]
      intro y hy tiesY
      have ranksX := ranks x (List.mem_append_left _ hx)
      have ranksY := ranks y (List.mem_append_right _ hy)
      exact Store.not_comesBefore_of_ties hv ranksY ranksX tiesY tiesX (before x hx y hy)
    rw [none, List.append_nil, List.nil_append]
  · have none : b.filter (s.ties v) = [] := by
      rw [List.filter_eq_nil_iff]
      intro x hx tiesX
      exact tie ⟨x, hx, tiesX⟩
    rw [none, List.append_nil, List.nil_append]

/-- Two runs `a ++ b` and `c ++ d` are cut so that `b` and `c` are to be exchanged: everything in `c` comes before all in `b`, and
nothing in `a` after anything in `d`. -/
structure Cut (s : Store) (asc : Bool) (a b c d : List Value) (clean : Prop) : Prop where
  alike : clean → Alike (a ++ b) → Alike (c ++ d) → Alike (a ++ b ++ (c ++ d))
  sound : ∀ cls, (∀ v ∈ a ++ b ++ (c ++ d), s.Ranks cls v) → s.InOrder asc (a ++ b) → s.InOrder asc (c ++ d) →
    clean ∧ (∀ x ∈ b, ∀ y ∈ c, s.comesBefore asc y x = true) ∧ ∀ x ∈ a, ∀ y ∈ d, s.NotAfter asc x y

/-- After the exchange it is enough to merge `a` with `c` and `b` with `d`. -/
theorem Cut.improves (cut : Cut s asc a b c d P) (left : l.Perm (a ++ c)) (right : r.Perm (b ++ d))
    (parts : ∀ cls, (∀ v ∈ a ++ b ++ (c ++ d), s.Ranks cls v) → s.InOrder asc (a ++ b) → s.InOrder asc (c ++ d) →
      Q ∧ s.InOrder asc l ∧ s.InOrder asc r ∧ ∀ v, s.Ranks cls v →
        l.filter (s.ties v) = (a ++ c).filter (s.ties v) ∧ r.filter (s.ties v) = (b ++ d).filter (s.ties v)) :
    Improves s asc [a ++ b, c ++ d] [l ++ r] (P ∧ Q) := by
  have exchanged : (a ++ c ++ (b ++ d)).Perm (a ++ b ++ (c ++ d)) := by
    have middle : (c ++ b ++ d).Perm (b ++ c ++ d) := List.perm_append_comm.append_right d
    simpa using middle.append_left a
  have perm : (l ++ r).Perm (a ++ b ++ (c ++ d)) := (left.append right).trans exchanged
  refine ⟨by simpa using perm, ?_, ?_⟩
  · intro clean alike r' mem
    rw [List.mem_singleton] at mem
    subst mem
    have all := cut.alike clean.1 (alike _ (by simp)) (alike _ (by simp))
    exact (perm.pairwise_iff fun h => h.symm).mpr all
  · intro cls ranks ordered
    have ranks : ∀ v ∈ a ++ b ++ (c ++ d), s.Ranks cls v := by simpa using ranks
    have first : s.InOrder asc (a ++ b) := ordered _ (by simp)
    have second : s.InOrder asc (c ++ d) := ordered _ (by simp)
    rcases cut.sound cls ranks first second with ⟨p, moved, apart⟩
    rcases parts cls ranks first second with ⟨q, orderedL, orderedR, stable⟩
    refine ⟨⟨p, q⟩, ?_, ?_⟩
    · intro r' mem
      rw [List.mem_singleton] at mem
      subst mem
      refine List.pairwise_append.mpr ⟨orderedL, orderedR, ?_⟩
      -- what is left of the cut stands before what is right of it, from whichever of the two runs each comes
      intro x hx y hy
      rw [left.mem_iff] at hx
      rw [right.mem_iff] at hy
      have ranksX := ranks x (exchanged.mem_iff.mp (List.mem_append_left _ hx))
      have ranksY := ranks y (exchanged.mem_iff.mp (List.mem_append_right _ hy))
      rcases List.mem_append.mp hx with hx | hx
      · rcases List.mem_append.mp hy with hy | hy
        · exact (List.pairwise_append.mp first).2.2 x hx y hy
        · exact apart x hx y hy
      · rcases List.mem_append.mp hy with hy | hy
        · exact Store.notAfter_of_comesBefore ranksX ranksY (moved y hy x hx)
        · exact (List.pairwise_append.mp second).2.2 x hx y hy
    · intro v hv
      have stays := filter_exchange (fun w mem => ranks w (by simp at mem ⊢; tauto)) moved hv
      rw [List.filter_append, List.filter_append] at stays
      simp only [List.flatten_cons, List.flatten_nil, List.append_nil, List.filter_append, (stable v hv).1, (stable v hv).2]
      rw [List.append_assoc, ← List.append_assoc (c.filter _), stays]
      simp only [List.append_assoc]

/-- What is merged from both sides of a cut merges the runs. -/
theorem Cut.joins {Q' : Prop} (cut : Cut s asc a b c d P) (left : Improves s asc [a, c] [l] Q) (right : Improves s asc [b, d] [r] Q') :
    Improves s asc [a ++ b, c ++ d] [l ++ r] (P ∧ Q ∧ Q') := by
  refine cut.improves (by simpa using left.perm) (by simpa using right.perm) ?_
  intro cls ranks ordered ordered'
  have parts := List.pairwise_append.mp ordered
  have parts' := List.pairwise_append.mp ordered'
  simp only [List.mem_append] at ranks
  rcases left.ordered cls (fun v mem => ranks v (by simp at mem; tauto)) (by simpa using ⟨parts.1, parts'.1⟩) with ⟨q, sorted, stable⟩
  rcases right.ordered cls (fun v mem => ranks v (by simp at mem; tauto)) (by simpa using ⟨parts.2.1, parts'.2.1⟩) with ⟨q', sorted', stable'⟩
  refine ⟨⟨q, q'⟩, sorted l (by simp), sorted' r (by simp), ?_⟩
  intro v hv
  exact ⟨by simpa using stable v hv, by simpa using stable' v hv⟩

end Sorting

end ScriptEngine
