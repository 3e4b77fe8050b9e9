import ScriptEngine.Proofs.JsonReading
import ScriptEngine.Proofs.JsonTexts
/-!
# Json trees are read back from their texts

A tree without doubles is written, in one line and over several lines, as a text of the grammar that stands for the tree. So
reading the text gives the tree back, as long as no more containers lie in each other than reading allows.
-/

namespace ScriptEngine

namespace Json

variable {t : Text} {bs out rest : List UInt8}

/-! ## Entries in rising order -/

theorem compareBytes_swap (as bs : List UInt8) : Text.compareBytes bs as = (Text.compareBytes as bs).swap := by
  induction as generalizing bs with
  | nil => cases bs <;> rfl
  | cons a as ih =>
    cases bs with
    | nil => rfl
    | cons b bs =>
      rw [Text.compareBytes, Text.compareBytes]
      by_cases less : a < b
      · have : ¬b < a := by
          rw [UInt8.lt_iff_toNat_lt] at *
          omega
        rw [if_pos less, if_neg this, if_pos less]
        rfl
      · rw [if_neg less, if_neg less]
        split
        · rfl
        · exact ih bs

/-- An entry whose key comes behind all others is inserted at the end. -/
theorem insert_last {key : Text} {j : Json} {done : List (Text × Json)} (last : ∀ e ∈ done, compare e.1 key = .lt) :
    insert key j done = done ++ [(key, j)] := by
  induction done with
  | nil => rfl
  | cons e done ih =>
    have behind : compare key e.1 = .gt := by
      have := compareBytes_swap e.1.bytes key.bytes
      rw [show Text.compareBytes e.1.bytes key.bytes = .lt from last e (List.mem_cons_self ..)] at this
      exact this
    rw [insert, behind, List.cons_append, ← ih fun e he => last e (List.mem_cons_of_mem _ he)]

theorem foldl_insert_append {es done : List (Text × Json)} (rising : (done ++ es).Pairwise fun e f => compare e.1 f.1 = .lt) :
    es.foldl (fun done e => insert e.1 e.2 done) done = done ++ es := by
  induction es generalizing done with
  | nil => exact (List.append_nil done).symm
  | cons e es ih =>
    have last : ∀ f ∈ done, compare f.1 e.1 = .lt := fun f hf =>
      (List.pairwise_append.mp rising).2.2 f hf e (List.mem_cons_self ..)
    rw [List.foldl_cons, insert_last last, ih (by rwa [List.append_assoc]), List.append_assoc]
    rfl

/-! ## Trees -/

mutual

/-- A tree that its text gives back: it holds no doubles, its texts and keys are well-formed, and the keys of an object rise. -/
def IsExact : Json → Prop
  | double _ => False
  | text t => t.isValid = true
  | list items => AllExact items
  | object entries => entries.Pairwise (fun e f => compare e.1 f.1 = .lt) ∧ EntriesExact entries
  | _ => True

/-- Trees that their texts give back. -/
def AllExact : List Json → Prop
  | [] => True
  | j :: js => j.IsExact ∧ AllExact js

/-- Entries whose values their texts give back, and whose keys are well-formed. -/
def EntriesExact : List (Text × Json) → Prop
  | [] => True
  | (k, j) :: es => k.isValid = true ∧ j.IsExact ∧ EntriesExact es

end

section Rendered

variable {d : Nat} {gap ending : List UInt8} {js : List Json} {es : List (Text × Json)} {ts : List Text} {j : Json} {key text : Text}

theorem separated_join {α : Type} {part : List UInt8 → α → List UInt8 → Prop} {close : UInt8} {xs : List α}
    (blank : ending.all isBlank = true) (parts : List.Forall₂ (fun x t => ∀ rest, part (gap ++ ((t : Text).bytes ++ rest)) x rest) xs ts)
    (some : xs ≠ []) (rest : List UInt8) :
    Separated part close (gap ++ ((Text.join ⟨0x2C :: gap⟩ ts).bytes ++ (ending ++ close :: rest))) xs rest := by
  induction parts with
  | nil => exact absurd rfl some
  | @cons x t xs ts first others ih =>
    cases others with
    | nil =>
      rw [Text.join, List.flatMap_nil, List.append_nil]
      exact .last (first _) ⟨ending, rfl, blank⟩
    | @cons y u ys us second others =>
      have next := ih (List.cons_ne_nil _ _)
      have joined : (Text.join ⟨0x2C :: gap⟩ (t :: u :: us)).bytes = t.bytes ++ 0x2C :: (gap ++ (Text.join ⟨0x2C :: gap⟩ (u :: us)).bytes) := by
        rw [Text.join, Text.join, List.flatMap_cons]
        simp only [List.cons_append, List.append_assoc]
      rw [joined, List.append_assoc, List.cons_append, List.append_assoc]
      exact .next (first _) (.refl _) next

theorem member_of_text (gap space : List UInt8) (blank : gap.all isBlank = true) (blank' : space.all isBlank = true)
    (valid : key.isValid = true) {value : List UInt8 → Json → List UInt8 → Prop} (h : value (text.bytes ++ rest) j rest) :
    Member value (gap ++ (((quoteText key).bytes ++ 0x3A :: (space ++ text.bytes)) ++ rest)) (key, j) rest := by
  rw [List.append_assoc]
  obtain ⟨bs, spelled, quoted⟩ := quoted_quoteText valid ((0x3A :: (space ++ text.bytes)) ++ rest)
  rw [spelled]
  refine ⟨bs, _, _, _, ⟨gap, rfl, blank⟩, quoted, (Text.repaired_of_isValid valid).symm, .refl _, ?_⟩
  exact ⟨_, ⟨space, List.append_assoc .., blank'⟩, h⟩

theorem spells_list (gap ending : List UInt8) (blank : gap.all isBlank = true) (blank' : ending.all isBlank = true)
    (items : List.Forall₂ (fun j t => ∀ rest, Spells exactNumber d ((t : Text).bytes ++ rest) j rest) js ts) (some : js ≠ [])
    (rest : List UInt8) :
    Spells exactNumber (d + 1) (0x5B :: (gap ++ ((Text.join ⟨0x2C :: gap⟩ ts).bytes ++ (ending ++ 0x5D :: rest)))) (.list js) rest :=
  .inr (.list (separated_join blank' (items.imp fun _ _ h rest => ⟨_, ⟨gap, rfl, blank⟩, h rest⟩) some rest))

theorem spells_object (gap ending : List UInt8) (rising : es.Pairwise fun e f => compare e.1 f.1 = .lt) (blank : ending.all isBlank = true)
    (members : List.Forall₂ (fun e t => ∀ rest, Member (Spells exactNumber d) (gap ++ ((t : Text).bytes ++ rest)) e rest) es ts)
    (some : es ≠ []) (rest : List UInt8) :
    Spells exactNumber (d + 1) (0x7B :: (gap ++ ((Text.join ⟨0x2C :: gap⟩ ts).bytes ++ (ending ++ 0x7D :: rest)))) (.object es) rest := by
  have same : es.foldl (fun done e => insert e.1 e.2 done) [] = es := foldl_insert_append rising
  have object := Container.object (separated_join blank members some rest)
  rw [same] at object
  exact .inr object

/-- The words of the values that have no parts. -/
theorem spells_null (d : Nat) (rest : List UInt8) : Spells exactNumber d ((Text.ofString "null").bytes ++ rest) .null rest :=
  Scalar.null.spells d

theorem spells_bool (b : Bool) (d : Nat) (rest : List UInt8) :
    Spells exactNumber d ((if b then "true" else "false" : Text).bytes ++ rest) (.bool b) rest := by
  cases b with
  | false => exact Scalar.false.spells d
  | true => exact Scalar.true.spells d

theorem spells_int (n : Int64) (d : Nat) (rest : List UInt8) :
    Spells exactNumber d ((toString n.toInt : Text).bytes ++ rest) (.int n) rest := by
  obtain ⟨isNumber, number⟩ := number_toString n
  have scalar : Scalar exactNumber _ _ rest := .number isNumber
  rw [number] at scalar
  exact scalar.spells d

theorem spells_text (valid : t.isValid = true) (d : Nat) (rest : List UInt8) :
    Spells exactNumber d ((quoteText t).bytes ++ rest) (.text t) rest := by
  obtain ⟨bs, spelled, quoted⟩ := quoted_quoteText valid rest
  have scalar : Scalar exactNumber _ _ rest := .text quoted
  rw [Text.repaired_of_isValid valid] at scalar
  rw [spelled]
  exact scalar.spells d

/-! ### Compact texts -/

mutual

/-- The compact text of a tree spells the tree. -/
theorem spells_render : (j : Json) → j.IsExact → ∃ t, j.render? = some t ∧
    ∀ d, j.depth ≤ d → ∀ rest, Spells exactNumber d (t.bytes ++ rest) j rest
  | .null, _ => ⟨_, rfl, fun d _ => spells_null d⟩
  | .bool b, _ => ⟨_, rfl, fun d _ => spells_bool b d⟩
  | .int n, _ => ⟨_, rfl, fun d _ => spells_int n d⟩
  | .text _, valid => ⟨_, rfl, fun d _ => spells_text valid d⟩
  | .list items, all => by
    obtain ⟨ts, rendered, spelled⟩ := spells_renderAll items all
    refine ⟨"[" ++ Text.join "," ts ++ "]", by rw [render?, rendered]; rfl, fun d deep rest => ?_⟩
    have bytes : ("[" ++ Text.join "," ts ++ "]" : Text).bytes ++ rest = 0x5B :: ((Text.join ⟨[0x2C]⟩ ts).bytes ++ 0x5D :: rest) := by
      rw [Text.bytes_append, Text.bytes_append, List.append_assoc, List.append_assoc]
      rfl
    rw [depth] at deep
    obtain ⟨d, rfl⟩ := Nat.exists_eq_add_of_lt deep
    rw [bytes]
    cases items with
    | nil =>
      cases spelled d (Nat.zero_le _)
      exact .inr (.emptyList (.refl _))
    | cons j js => exact spells_list [] [] rfl rfl (spelled _ (Nat.le_add_right ..)) (List.cons_ne_nil _ _) rest
  | .object entries, all => by
    obtain ⟨ts, rendered, spelled⟩ := spells_renderEntries entries all.2
    refine ⟨"\x7b" ++ Text.join "," ts ++ "\x7d", by rw [render?, rendered]; rfl, fun d deep rest => ?_⟩
    have bytes : ("\x7b" ++ Text.join "," ts ++ "\x7d" : Text).bytes ++ rest =
        0x7B :: ((Text.join ⟨[0x2C]⟩ ts).bytes ++ 0x7D :: rest) := by
      rw [Text.bytes_append, Text.bytes_append, List.append_assoc, List.append_assoc]
      rfl
    rw [depth] at deep
    obtain ⟨d, rfl⟩ := Nat.exists_eq_add_of_lt deep
    rw [bytes]
    cases entries with
    | nil =>
      cases spelled d (Nat.zero_le _)
      exact .inr (.emptyObject (.refl _))
    | cons e es => exact spells_object [] [] all.1 rfl (spelled _ (Nat.le_add_right ..)) (List.cons_ne_nil _ _) rest

theorem spells_renderAll : (js : List Json) → AllExact js → ∃ ts, renderAll? js = some ts ∧
    ∀ d, depthAll js ≤ d → List.Forall₂ (fun j t => ∀ rest, Spells exactNumber d ((t : Text).bytes ++ rest) j rest) js ts
  | [], _ => ⟨[], rfl, fun _ _ => .nil⟩
  | j :: js, all => by
    obtain ⟨t, rendered, spelled⟩ := spells_render j all.1
    obtain ⟨ts, rendered', spelled'⟩ := spells_renderAll js all.2
    refine ⟨t :: ts, by rw [renderAll?, rendered, rendered'], fun d deep => ?_⟩
    rw [depthAll] at deep
    exact .cons (spelled d (by omega)) (spelled' d (by omega))

theorem spells_renderEntries : (es : List (Text × Json)) → EntriesExact es → ∃ ts, renderEntries? es = some ts ∧
    ∀ d, depthEntries es ≤ d → List.Forall₂ (fun e t => ∀ rest, Member (Spells exactNumber d) ((t : Text).bytes ++ rest) e rest) es ts
  | [], _ => ⟨[], rfl, fun _ _ => .nil⟩
  | (k, j) :: es, all => by
    obtain ⟨t, rendered, spelled⟩ := spells_render j all.2.1
    obtain ⟨ts, rendered', spelled'⟩ := spells_renderEntries es all.2.2
    refine ⟨(quoteText k ++ ":" ++ t) :: ts, by rw [renderEntries?, rendered, rendered'], fun d deep => ?_⟩
    rw [depthEntries] at deep
    refine .cons (fun rest => ?_) (spelled' d (by omega))
    have bytes : (quoteText k ++ ":" ++ t : Text).bytes = (quoteText k).bytes ++ 0x3A :: t.bytes := by
      rw [Text.bytes_append, Text.bytes_append, List.append_assoc]
      rfl
    rw [bytes]
    exact member_of_text [] [] rfl rfl all.1 (spelled d (by omega) rest)

end

/-! ### Texts over several lines -/

theorem isBlank_newline (level : Nat) : (newline level).bytes.all isBlank = true := by
  have blanks : ((List.replicate level ("  " : Text)).flatMap Text.bytes).all isBlank = true := by
    refine List.all_eq_true.mpr fun b hb => ?_
    obtain ⟨t, mem, hb⟩ := List.mem_flatMap.mp hb
    obtain rfl := List.eq_of_mem_replicate mem
    exact List.all_eq_true.mp (show ("  " : Text).bytes.all isBlank = true from rfl) b hb
  rw [newline, Text.bytes_append, List.all_append, Bool.and_eq_true]
  exact ⟨rfl, blanks⟩

mutual

/-- The text of a tree over several lines spells the tree. -/
theorem spells_indentAt : (j : Json) → j.IsExact → ∀ level d, j.depth ≤ d → ∀ rest,
    Spells exactNumber d ((j.indentAt level).bytes ++ rest) j rest
  | .null, _, _, d, _ => spells_null d
  | .bool b, _, _, d, _ => spells_bool b d
  | .int n, _, _, d, _ => spells_int n d
  | .text _, valid, _, d, _ => spells_text valid d
  | .list items, all, level, d, deep => by
    intro rest
    rw [depth] at deep
    obtain ⟨d, rfl⟩ := Nat.exists_eq_add_of_lt deep
    have spelled := spells_indentAll items all (level + 1) _ (Nat.le_add_right _ d)
    cases items with
    | nil => exact .inr (.emptyList (.refl _))
    | cons j js =>
      rw [indentAt, ← indentAll]
      have list := spells_list (newline (level + 1)).bytes (newline level).bytes (isBlank_newline _) (isBlank_newline _) spelled
        (List.cons_ne_nil _ _) rest
      simp only [Text.bytes_append, List.append_assoc]
      exact list
  | .object entries, all, level, d, deep => by
    intro rest
    rw [depth] at deep
    obtain ⟨d, rfl⟩ := Nat.exists_eq_add_of_lt deep
    have spelled := spells_indentEntries entries all.2 (level + 1) _ (Nat.le_add_right _ d)
    cases entries with
    | nil => exact .inr (.emptyObject (.refl _))
    | cons e es =>
      rw [indentAt, ← indentEntries]
      have object := spells_object (newline (level + 1)).bytes (newline level).bytes all.1 (isBlank_newline _) spelled
        (List.cons_ne_nil _ _) rest
      simp only [Text.bytes_append, List.append_assoc]
      exact object

theorem spells_indentAll : (js : List Json) → AllExact js → ∀ level d, depthAll js ≤ d →
    List.Forall₂ (fun j t => ∀ rest, Spells exactNumber d ((t : Text).bytes ++ rest) j rest) js (indentAll level js)
  | [], _, _, _, _ => .nil
  | j :: js, all, level, d, deep => by
    rw [depthAll] at deep
    exact .cons (spells_indentAt j all.1 level d (by omega)) (spells_indentAll js all.2 level d (by omega))

theorem spells_indentEntries : (es : List (Text × Json)) → EntriesExact es → ∀ level d, depthEntries es ≤ d →
    List.Forall₂ (fun e t => ∀ rest, Member (Spells exactNumber d) ((newline level).bytes ++ ((t : Text).bytes ++ rest)) e rest) es
      (indentEntries level es)
  | [], _, _, _, _ => .nil
  | (k, j) :: es, all, level, d, deep => by
    rw [depthEntries] at deep
    refine .cons (fun rest => ?_) (spells_indentEntries es all.2.2 level d (by omega))
    have bytes : (quoteText k ++ ": " ++ j.indentAt level : Text).bytes = (quoteText k).bytes ++ 0x3A :: ([0x20] ++ (j.indentAt level).bytes) := by
      rw [Text.bytes_append, Text.bytes_append, List.append_assoc]
      rfl
    rw [bytes]
    exact member_of_text _ [0x20] (isBlank_newline level) rfl all.1 (spells_indentAt j all.2.1 level d (by omega) rest)

end

/-! ### Documents -/

theorem document_of_spells (h : Spells exactNumber maxDepth (t.bytes ++ []) j []) : Document t j :=
  ⟨_, [], .refl _, List.append_nil t.bytes ▸ h, .refl _⟩

/-- The compact text of a tree is a document of that tree. -/
theorem document_inspect (isExact : j.IsExact) (shallow : j.depth ≤ maxDepth) : Document j.inspect j := by
  obtain ⟨t, rendered, spelled⟩ := spells_render j isExact
  rw [inspect, rendered]
  exact document_of_spells (spelled maxDepth shallow [])

/-- The text of a tree over several lines is a document of that tree. -/
theorem document_indent (isExact : j.IsExact) (shallow : j.depth ≤ maxDepth) : Document j.indent j := by
  obtain ⟨t, rendered, -⟩ := spells_render j isExact
  rw [indent, rendered]
  exact document_of_spells (spells_indentAt j isExact 0 maxDepth shallow [])

end Rendered

end Json

theorem Store.inspectTo_json (s : Store) (depth a : Nat) : s.inspectTo depth (.json a) = (s.tree (s.box a)).inspect := by
  cases depth <;> rfl

namespace StoreM

theorem parseJson_document {text : Text} {j : Json} (document : Json.Document text j) (s : Store) :
    ∃ a t, (parseJson text).run.run s = (.ok (.json a), t) ∧ t.tree (t.box a) = j ∧ t.inspect (.json a) = j.inspect := by
  obtain ⟨a, t, run, tree⟩ := run_parseJson (Json.parse_eq_ok.mpr (.inl document)) s
  refine ⟨a, t, run, tree, ?_⟩
  rw [Store.inspect, Store.inspectTo_json, tree]

/-- **A tree without doubles is read back from its texts.** Its text in one line and its text over several lines are both read
without a fault, and give a json value that holds the tree and is shown as it. -/
theorem parseJson_inspect {j : Json} (isExact : j.IsExact) (shallow : j.depth ≤ Json.maxDepth) (s : Store) :
    (∃ a t, (parseJson j.inspect).run.run s = (.ok (.json a), t) ∧ t.tree (t.box a) = j ∧ t.inspect (.json a) = j.inspect) ∧
      ∃ a t, (parseJson j.indent).run.run s = (.ok (.json a), t) ∧ t.tree (t.box a) = j ∧ t.inspect (.json a) = j.inspect :=
  ⟨parseJson_document (Json.document_inspect isExact shallow) s, parseJson_document (Json.document_indent isExact shallow) s⟩

/-- The least whole number, text that is escaped, and containers in each other. -/
theorem parseJson_inspect_nested :
    let j := Json.object [("a", .list [.int Int64.minValue, .text "<é\n\"", .list []]), ("b", .null)]
    (j.IsExact ∧ j.depth ≤ Json.maxDepth) ∧
      (∃ a t, (parseJson j.inspect).run.run Store.initial = (.ok (.json a), t) ∧ t.tree (t.box a) = j ∧
        t.inspect (.json a) = j.inspect) ∧
      ∃ a t, (parseJson j.indent).run.run Store.initial = (.ok (.json a), t) ∧ t.tree (t.box a) = j ∧
        t.inspect (.json a) = j.inspect := by
  intro j
  have escaped : Text.isValid "<é\n\"" = true := by decide
  have isExact : j.IsExact := ⟨by decide, by decide, ⟨trivial, escaped, trivial, trivial⟩, by decide, trivial, trivial⟩
  have shallow : j.depth ≤ Json.maxDepth := by decide
  exact ⟨⟨isExact, shallow⟩, parseJson_inspect isExact shallow Store.initial⟩

end StoreM

end ScriptEngine
