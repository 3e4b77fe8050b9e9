import Mathlib.Tactic.Push
import ScriptEngine.Proofs.JsonReading
/-!
# Equality of data

Two values that are not json are equal when they are of one kind and have the same data, and the numbers of all kinds count
as one kind. As soon as one of two is json, nothing but the native form of both counts: dates are texts there, arrays of all
kinds and queues are lists. So equality is one relation where no json comes in and another where it does, and it is
transitive up to the places where it passes from one to the other.
-/

namespace ScriptEngine

/-- A list of the same length has something at the same place. -/
theorem exists_getElem?_of_length {α β : Type} {as : List α} {bs : List β} (size : as.length = bs.length) {k : Nat} {x : α}
    (here : as[k]? = some x) : ∃ y, bs[k]? = some y := by
  have inside : k < bs.length := by
    rw [← size]
    exact (List.getElem?_eq_some_iff.mp here).1
  exact ⟨_, List.getElem?_eq_getElem inside⟩

/-- The data of a value. A handle is a picture or a function, with the text by which it is shown. -/
inductive Datum where
  | null
  | bool (b : Bool)
  | whole (n : Int64)
  | text (t : Text)
  | date (d : Date)
  | handle (v : Value) (shown : Text)
  | json (j : Json)
  | sequence (kind : Kind) (items : List Datum)

/-- The sorts of data; numbers are of one sort, sequences of one for each kind. -/
inductive Datum.Tag where
  | null
  | bool
  | number
  | text
  | date
  | handle
  | json
  | sequence (kind : Kind)
deriving DecidableEq

namespace Datum

/-- The sort of data. -/
def tag : Datum → Datum.Tag
  | null => .null
  | bool _ => .bool
  | whole _ => .number
  | text _ => .text
  | date _ => .date
  | handle _ _ => .handle
  | json _ => .json
  | sequence k _ => .sequence k

mutual

/-- The native form of data. -/
def form : Datum → Json
  | null => .null
  | bool b => .bool b
  | whole n => .int n
  | text t => .text t
  | date d => .text (Layout.internet.format d)
  | handle _ shown => .text shown
  | json j => j
  | sequence _ items => .list (forms items)

/-- The native forms of data. -/
def forms : List Datum → List Json
  | [] => []
  | x :: xs => form x :: forms xs

end

mutual

/-- How many arrays and queues lie in each other. -/
def depth : Datum → Nat
  | sequence _ items => depths items + 1
  | _ => 0

/-- How many arrays and queues lie in each other in some data. -/
def depths : List Datum → Nat
  | [] => 0
  | x :: xs => max (depth x) (depths xs)

end

theorem forms_eq_map (xs : List Datum) : forms xs = xs.map form := by
  induction xs with
  | nil => rfl
  | cons x xs ih => rw [forms, ih, List.map_cons]

theorem depth_le_depths {x : Datum} {xs : List Datum} (mem : x ∈ xs) : x.depth ≤ depths xs := by
  induction xs with
  | nil => cases mem
  | cons y ys ih =>
    rw [depths]
    cases mem with
    | head => exact Nat.le_max_left ..
    | tail _ mem => exact Nat.le_trans (ih mem) (Nat.le_max_right ..)

/-- The depth of some data is that of one of them, unless there are none. -/
theorem exists_depth_eq {xs : List Datum} (some : 0 < depths xs) : ∃ x ∈ xs, x.depth = depths xs := by
  induction xs with
  | nil => exact absurd some (Nat.lt_irrefl 0)
  | cons y ys ih =>
    rw [depths] at some ⊢
    obtain first | rest := Nat.le_total (depths ys) y.depth
    · exact ⟨y, List.mem_cons_self .., (Nat.max_eq_left first).symm⟩
    · rw [Nat.max_eq_right rest] at some ⊢
      obtain ⟨x, mem, deepest⟩ := ih some
      exact ⟨x, List.mem_cons_of_mem _ mem, deepest⟩

/-- Data of one kind that is equal only to itself. -/
def IsSingle : Datum → Prop
  | null | bool _ | whole _ | text _ | handle _ _ => True
  | date _ | json _ | sequence _ _ => False

/-! ## Equality -/

/-- Data that counts as equal: the same data, dates of one instant, sequences of one kind with equal items, and, where one of
the two is json, data of one form. -/
inductive Same : Datum → Datum → Prop
  | single {x : Datum} (single : x.IsSingle) : Same x x
  | date {d e : Date} (instant : d.sameInstant e = true) : Same (date d) (date e)
  | sequence {k : Kind} {xs ys : List Datum} (size : xs.length = ys.length)
      (each : ∀ (i : Nat) (x y : Datum), xs[i]? = some x → ys[i]? = some y → Same x y) : Same (sequence k xs) (sequence k ys)
  | json {x y : Datum} (json : x.tag = .json ∨ y.tag = .json) (forms : x.form = y.form) : Same x y

variable {x y z : Datum}

/-- Where one of two is json, equal data is data of one form. -/
theorem same_iff_form (json : x.tag = .json ∨ y.tag = .json) : Same x y ↔ x.form = y.form := by
  constructor
  · intro same
    cases same with
    | json _ forms => exact forms
    | single => rfl
    | date => rcases json with h | h <;> cases h
    | sequence => rcases json with h | h <;> cases h
  · exact .json json

theorem Same.refl (x : Datum) : Same x x := by
  induction deep : x.depth using Nat.strongRecOn generalizing x with
  | ind c ih =>
    cases x with
    | date d => exact .date (by simp [Date.sameInstant])
    | json j => exact .json (.inl rfl) rfl
    | sequence k xs =>
      refine .sequence rfl fun i y z hy hz => ?_
      obtain rfl : y = z := Option.some_inj.mp (hy.symm.trans hz)
      rw [depth] at deep
      have less := depth_le_depths (List.mem_of_getElem? hy)
      exact ih _ (by omega) y rfl
    | _ => exact .single trivial

theorem Same.symm (same : Same x y) : Same y x := by
  induction same with
  | single single => exact .single single
  | date instant =>
    refine .date ?_
    simp only [Date.sameInstant, Bool.and_eq_true, decide_eq_true_eq] at instant ⊢
    exact ⟨instant.1.symm, instant.2.symm⟩
  | sequence size each ih => exact .sequence size.symm fun i y x hy hx => ih i x y hx hy
  | json json forms => exact .json json.symm forms.symm

/-! ## Where forms and equality part -/

/-- At some place the two have data that is not json and is not of one sort, or dates of two instants, or two handles. -/
inductive Unlike : Datum → Datum → Prop
  | sorts {x y : Datum} (left : x.tag ≠ .json) (right : y.tag ≠ .json) (apart : x.tag ≠ y.tag) : Unlike x y
  | dates {d e : Date} (apart : ¬d.sameInstant e = true) : Unlike (date d) (date e)
  | handles {v w : Value} {t u : Text} (apart : v ≠ w) : Unlike (handle v t) (handle w u)
  | inner {k l : Kind} {xs ys : List Datum} {i : Nat} {x y : Datum} (left : xs[i]? = some x) (right : ys[i]? = some y)
      (unlike : Unlike x y) : Unlike (sequence k xs) (sequence l ys)

/-- At some place the two have dates with different texts. -/
inductive Retold : Datum → Datum → Prop
  | dates {d e : Date} (apart : Layout.internet.format d ≠ Layout.internet.format e) : Retold (date d) (date e)
  | inner {k l : Kind} {xs ys : List Datum} {i : Nat} {x y : Datum} (left : xs[i]? = some x) (right : ys[i]? = some y)
      (retold : Retold x y) : Retold (sequence k xs) (sequence l ys)

/-- What differs somewhere is not equal. -/
theorem Unlike.not_same (unlike : Unlike x y) : ¬Same x y := by
  induction unlike with
  | sorts left right apart =>
    intro same
    cases same with
    | single | date | sequence => exact apart rfl
    | json json => exact json.elim left right
  | dates apart =>
    intro same
    cases same with
    | single single => cases single
    | date instant => exact apart instant
    | json json => rcases json with h | h <;> cases h
  | handles apart =>
    intro same
    cases same with
    | single => exact apart rfl
    | json json => rcases json with h | h <;> cases h
  | inner left right _ ih =>
    intro same
    cases same with
    | single single => cases single
    | sequence size each => exact ih (each _ _ _ left right)
    | json json => rcases json with h | h <;> cases h

/-- Dates with different texts are of different forms. -/
theorem Retold.form_ne (retold : Retold x y) : x.form ≠ y.form := by
  induction retold with
  | dates apart =>
    intro forms
    rw [form, form] at forms
    exact apart (Json.text.inj forms)
  | @inner k l xs ys i x y left right _ ih =>
    intro forms
    rw [form, form, forms_eq_map, forms_eq_map] at forms
    have place := congrArg (·[i]?) (Json.list.inj forms)
    simp only [List.getElem?_map, left, right, Option.map_some] at place
    exact ih (Option.some_inj.mp place)

/-- Equal data is of one form, but for dates with different texts. -/
theorem Same.form_eq_or_retold (same : Same x y) : x.form = y.form ∨ Retold x y := by
  induction same with
  | single => exact .inl rfl
  | @date d e instant =>
    by_cases texts : Layout.internet.format d = Layout.internet.format e
    · left
      rw [form, form, texts]
    · exact .inr (.dates texts)
  | json _ forms => exact .inl forms
  | @sequence k xs ys size each ih =>
    by_cases all : ∀ (i : Nat) (x y : Datum), xs[i]? = some x → ys[i]? = some y → x.form = y.form
    · left
      rw [form, form, forms_eq_map, forms_eq_map]
      refine congrArg Json.list (List.ext_getElem (by simpa using size) fun i hi hi' => ?_)
      rw [List.getElem_map, List.getElem_map]
      rw [List.length_map] at hi hi'
      exact all i _ _ (List.getElem?_eq_getElem hi) (List.getElem?_eq_getElem hi')
    · right
      push Not at all
      obtain ⟨i, x, y, hx, hy, apart⟩ := all
      exact .inner hx hy ((ih i x y hx hy).resolve_left apart)

/-- Data of one form is equal, unless it differs somewhere. -/
theorem same_or_unlike (forms : x.form = y.form) : Same x y ∨ Unlike x y := by
  induction deep : x.depth using Nat.strongRecOn generalizing x y with
  | ind c ih =>
    by_cases left : x.tag = .json
    · exact .inl (.json (.inl left) forms)
    by_cases right : y.tag = .json
    · exact .inl (.json (.inr right) forms)
    by_cases sorts : x.tag = y.tag
    · cases x with
      | json j => exact absurd rfl left
      | null =>
        cases y with
        | null => exact .inl (.single trivial)
        | _ => cases sorts
      | bool b =>
        cases y with
        | bool c =>
          obtain rfl : b = c := Json.bool.inj forms
          exact .inl (.single trivial)
        | _ => cases sorts
      | whole n =>
        cases y with
        | whole m =>
          obtain rfl : n = m := Json.int.inj forms
          exact .inl (.single trivial)
        | _ => cases sorts
      | text t =>
        cases y with
        | text u =>
          obtain rfl : t = u := Json.text.inj forms
          exact .inl (.single trivial)
        | _ => cases sorts
      | date d =>
        cases y with
        | date e =>
          by_cases instant : d.sameInstant e = true
          · exact .inl (.date instant)
          · exact .inr (.dates instant)
        | _ => cases sorts
      | handle v t =>
        cases y with
        | handle w u =>
          obtain rfl : t = u := Json.text.inj forms
          by_cases same : v = w
          · subst same
            exact .inl (.single trivial)
          · exact .inr (.handles same)
        | _ => cases sorts
      | sequence k xs =>
        cases y with
        | sequence l ys =>
          cases sorts
          rw [form, form, forms_eq_map, forms_eq_map] at forms
          have lists := Json.list.inj forms
          have size : xs.length = ys.length := by simpa using congrArg List.length lists
          have parts (i : Nat) (x y : Datum) (hx : xs[i]? = some x) (hy : ys[i]? = some y) : Same x y ∨ Unlike x y := by
            have place := congrArg (·[i]?) lists
            simp only [List.getElem?_map, hx, hy, Option.map_some] at place
            rw [depth] at deep
            have less := depth_le_depths (List.mem_of_getElem? hx)
            exact ih _ (by omega) (Option.some_inj.mp place) rfl
          by_cases all : ∀ (i : Nat) (x y : Datum), xs[i]? = some x → ys[i]? = some y → Same x y
          · exact .inl (.sequence size all)
          · push Not at all
            obtain ⟨i, x, y, hx, hy, apart⟩ := all
            exact .inr (.inner hx hy ((parts i x y hx hy).resolve_left apart))
        | _ => cases sorts
    · exact .inr (.sorts left right sorts)

/-! ## Transitivity -/

/-- What stands in the way of transitivity: at some place there is json, and the other two are not equal, or are of two
forms. -/
inductive Bridged : Datum → Datum → Datum → Prop
  | middle {x z : Datum} {j : Json} (unlike : Unlike x z) : Bridged x (json j) z
  | first {y z : Datum} {j : Json} (retold : Retold y z) : Bridged (json j) y z
  | last {x y : Datum} {j : Json} (retold : Retold x y) : Bridged x y (json j)
  | inner {k l m : Kind} {xs ys zs : List Datum} {i : Nat} {x y z : Datum} (left : xs[i]? = some x) (middle : ys[i]? = some y)
      (right : zs[i]? = some z) (bridged : Bridged x y z) : Bridged (sequence k xs) (sequence l ys) (sequence m zs)

/-- Where data is bridged, equality is not transitive. -/
theorem Bridged.not_same (bridged : Bridged x y z) (first : Same x y) (second : Same y z) : ¬Same x z := by
  induction bridged with
  | middle unlike => exact unlike.not_same
  | first retold =>
    intro third
    rw [same_iff_form (.inl rfl)] at first third
    exact retold.form_ne (first.symm.trans third)
  | last retold =>
    intro third
    rw [same_iff_form (.inr rfl)] at second third
    exact retold.form_ne (third.trans second.symm)
  | inner left middle right _ ih =>
    intro third
    cases first with
    | json json => rcases json with h | h <;> cases h
    | single single => cases single
    | sequence size each =>
      cases second with
      | json json => rcases json with h | h <;> cases h
      | single single => cases single
      | sequence size' each' =>
        cases third with
        | json json => rcases json with h | h <;> cases h
        | single single => cases single
        | sequence size'' each'' =>
          exact ih (each _ _ _ left middle) (each' _ _ _ middle right) (each'' _ _ _ left right)

theorem exists_json (h : x.tag = .json) : ∃ j, x = json j := by
  cases x with
  | json j => exact ⟨j, rfl⟩
  | _ => cases h

/-- Where one of three is json, equality passes over the one in the middle by way of the forms. -/
theorem Same.trans_json (first : Same x y) (second : Same y z) (json : x.tag = .json ∨ y.tag = .json ∨ z.tag = .json) :
    Same x z ∨ Bridged x y z := by
  obtain left | middle | right := json
  · obtain ⟨j, rfl⟩ := exists_json left
    rw [same_iff_form (.inl rfl)] at first
    obtain forms | retold := second.form_eq_or_retold
    · exact .inl (.json (.inl rfl) (first.trans forms))
    · exact .inr (.first retold)
  · obtain ⟨j, rfl⟩ := exists_json middle
    rw [same_iff_form (.inr rfl)] at first
    rw [same_iff_form (.inl rfl)] at second
    obtain same | unlike := same_or_unlike (first.trans second)
    · exact .inl same
    · exact .inr (.middle unlike)
  · obtain ⟨j, rfl⟩ := exists_json right
    rw [same_iff_form (.inr rfl)] at second
    obtain forms | retold := first.form_eq_or_retold
    · exact .inl (.json (.inr rfl) (forms.trans second))
    · exact .inr (.last retold)

/-- Equality is transitive, but where data is bridged. -/
theorem Same.trans_or_bridged (first : Same x y) (second : Same y z) : Same x z ∨ Bridged x y z := by
  induction first generalizing z with
  | single => exact .inl second
  | json json forms =>
    refine (Same.json json forms).trans_json second ?_
    exact json.imp id .inl
  | @date d e instant =>
    cases second with
    | single single => cases single
    | json json forms => exact (Same.date instant).trans_json (.json json forms) (.inr json)
    | date instant' =>
      refine .inl (.date ?_)
      simp only [Date.sameInstant, Bool.and_eq_true, decide_eq_true_eq] at instant instant' ⊢
      exact ⟨instant.1.trans instant'.1, instant.2.trans instant'.2⟩
  | @sequence k xs ys size each ih =>
    cases second with
    | single single => cases single
    | json json forms => exact (Same.sequence size each).trans_json (.json json forms) (.inr json)
    | @sequence _ _ zs size' each' =>
      have parts (i : Nat) (x z : Datum) (hx : xs[i]? = some x) (hz : zs[i]? = some z) :
          ∃ y, ys[i]? = some y ∧ (Same x z ∨ Bridged x y z) := by
        obtain ⟨y, hy⟩ := exists_getElem?_of_length size hx
        exact ⟨y, hy, ih i x y hx hy (each' i y z hy hz)⟩
      by_cases all : ∀ (i : Nat) (x z : Datum), xs[i]? = some x → zs[i]? = some z → Same x z
      · exact .inl (.sequence (size.trans size') all)
      · push Not at all
        obtain ⟨i, x, z, hx, hz, apart⟩ := all
        obtain ⟨y, hy, part⟩ := parts i x z hx hz
        exact .inr (.inner hx hy hz (part.resolve_left apart))

/-- Equality is transitive exactly where data is not bridged. -/
theorem Same.trans_iff (first : Same x y) (second : Same y z) : Same x z ↔ ¬Bridged x y z := by
  constructor
  · exact fun third bridged => bridged.not_same first second third
  · exact fun free => (first.trans_or_bridged second).resolve_right free

/-! ## Forms read back -/

/-- The data that is read back from a native form: what is in it, and json for what has parts. -/
def ofForm : Json → Datum
  | .null => null
  | .bool b => bool b
  | .int n => whole n
  | .text t => text t
  | j => json j

theorem form_ofForm (j : Json) : (ofForm j).form = j := by
  cases j <;> rfl

/-- Data equals what is read back from its form, but for dates and handles, which come back as texts. -/
theorem same_ofForm_iff (x : Datum) : Same (ofForm x.form) x ↔ x.tag ≠ .date ∧ x.tag ≠ .handle := by
  have lost (t : Text) (apart : x.tag ≠ .text) (data : x.tag ≠ .json) : ¬Same (text t) x := by
    intro same
    exact (Unlike.sorts (x := text t) nofun data (Ne.symm apart)).not_same same
  cases x with
  | date d => exact ⟨fun same => absurd same (lost _ (by simp [tag]) (by simp [tag])), fun h => absurd rfl h.1⟩
  | handle v t => exact ⟨fun same => absurd same (lost _ (by simp [tag]) (by simp [tag])), fun h => absurd rfl h.2⟩
  | json j => exact ⟨fun _ => by simp [tag], fun _ => .json (.inr rfl) (form_ofForm j)⟩
  | sequence k xs => exact ⟨fun _ => by simp [tag], fun _ => .json (.inl rfl) rfl⟩
  | _ => exact ⟨fun _ => by simp [tag], fun _ => .single trivial⟩

end Datum

end ScriptEngine
