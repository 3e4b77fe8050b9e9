import ScriptEngine.Proofs.LexemeScan
import ScriptEngine.Proofs.SpelledParse
/-!
# Programs of one expression

An expression is shown with every operator in parentheses. That is one of its spellings, with the lexemes next to each
other so that each is read as its token.

A spelling of an operator expression with a semicolon behind it is a program of one statement, which is read without
faults.
-/

namespace ScriptEngine

/-! ## Operators -/

/-- The lexeme that an operator is shown as. -/
def BinaryOp.lexeme : BinaryOp → Lexeme
  | .add => .symbol .plus "+"
  | .sub => .symbol .minus "-"
  | .mul => .symbol .star "*"
  | .div => .symbol .slash "/"
  | .mod => .symbol .percent "%"
  | .pow => .symbol .caret "^"
  | .eq => .symbol .eq "=="
  | .ne => .symbol .notEq "!="
  | .lt => .symbol .lt "<"
  | .le => .symbol .lte "<="
  | .gt => .symbol .gt ">"
  | .ge => .symbol .gte ">="
  | .and => .word ("and" : Text).bytes
  | .or => .word ("or" : Text).bytes

theorem BinaryOp.lexeme_bytes (op : BinaryOp) : op.lexeme.bytes = (op.symbol : Text).bytes := by
  cases op <;> rfl

theorem BinaryOp.lexeme_spelledBy (op : BinaryOp) : op.SpelledBy op.lexeme := by
  cases op
  case and => exact ⟨"and", rfl, rfl⟩
  case or => exact ⟨"or", rfl, rfl⟩
  all_goals
    unfold BinaryOp.SpelledBy BinaryOp.lexeme BinaryOp.symbols
    decide

theorem BinaryOp.lexeme_formed (op : BinaryOp) : op.lexeme.Formed := by
  cases op
  case and => exact ⟨0x61, [0x6E, 0x64], rfl, rfl, rfl⟩
  case or => exact ⟨0x6F, [0x72], rfl, rfl, rfl⟩
  all_goals exact Lexeme.formed_symbol (by decide)

theorem UnaryOp.lexeme_formed (op : UnaryOp) : op.lexeme.Formed := by
  cases op <;> exact Lexeme.formed_symbol (by decide)

theorem Written.parens {as : List Lexeme} {text : List UInt8} (written : Written as text) :
    Written (.lparen :: (as ++ [.rparen])) (0x28 :: (text ++ [0x29])) := by
  have close : Written [.rparen] [0x29] := Written.single (Lexeme.formed_symbol (by decide))
  have body : Written (as ++ [.rparen]) (text ++ [0x29]) := written.append close (Lexeme.separated (by decide) [])
  exact body.push (a := .lparen) (Lexeme.formed_symbol (by decide)) fun _ _ => rfl

theorem Written.brackets {as : List Lexeme} {text : List UInt8} (written : Written as text) :
    Written (.lbracket :: (as ++ [.rbracket])) (0x5B :: (text ++ [0x5D])) := by
  have close : Written [.rbracket] [0x5D] := Written.single (Lexeme.formed_symbol (by decide))
  have body : Written (as ++ [.rbracket]) (text ++ [0x5D]) := written.append close (Lexeme.separated (by decide) [])
  exact body.push (a := .lbracket) (Lexeme.formed_symbol (by decide)) fun _ _ => rfl

/-- A text begins as an operand does: with a letter, a digit or what opens a list. -/
def Text.BeginsOperand (t : Text) : Prop :=
  ∃ b, t.bytes.head? = some b ∧ (Cursor.isWordByte b = true ∨ b = 0x28 ∨ b = 0x5B)

theorem Text.BeginsOperand.append {t : Text} (h : t.BeginsOperand) (u : Text) : (t ++ u).BeginsOperand := by
  obtain ⟨b, head, begins⟩ := h
  have longer : (t.bytes ++ u.bytes).head? = some b := by rw [List.head?_append, head, Option.some_or]
  exact ⟨b, longer, begins⟩

theorem Lexeme.begins_word {v : Text} (formed : (Lexeme.word v.bytes).Formed) : v.BeginsOperand := by
  obtain ⟨b, rest, shape, letter, -⟩ := formed
  exact ⟨b, by rw [shape, List.head?_cons], .inl (by simp [Cursor.isWordByte, letter])⟩

theorem Lexeme.begins_digits {v : Text} (formed : (Lexeme.digits v.bytes).Formed) : v.BeginsOperand := by
  obtain ⟨some, all⟩ := formed
  obtain ⟨b, rest, shape⟩ := List.exists_cons_of_ne_nil some
  rw [shape, List.all_cons, Bool.and_eq_true] at all
  exact ⟨b, by rw [shape, List.head?_cons], .inl (by simp [Cursor.isWordByte, all.1])⟩

/-- The text of an expression begins as an operand does. -/
theorem Expr.begins_render {e : Expr} (plain : e.Plain) : e.render.BeginsOperand := by
  have opens : ("(" : Text).BeginsOperand := ⟨0x28, rfl, .inr (.inl rfl)⟩
  have opensList : ("[" : Text).BeginsOperand := ⟨0x5B, rfl, .inr (.inr rfl)⟩
  cases e
  case name m v => exact Lexeme.begins_word plain.1.1
  case int m n => exact Lexeme.begins_digits plain.1
  case long m n =>
    simp only [Expr.render]
    exact (Lexeme.begins_digits plain.1).append _
  case bool m b => cases b <;> exact ⟨_, rfl, .inl rfl⟩
  case null m => exact ⟨_, rfl, .inl rfl⟩
  case array m es =>
    simp only [Expr.render]
    exact (opensList.append _).append _
  case unary m op e =>
    simp only [Expr.render]
    exact ((opens.append _).append _).append _
  case binary m op l r =>
    simp only [Expr.render]
    exact ((((((opens.append _).append _).append _).append _).append _).append _)
  case index m c k =>
    simp only [Expr.render]
    exact ((((opens.append _).append _).append _).append _)
  case call m f args names builtin result =>
    simp only [Expr.render]
    exact (((Lexeme.begins_word plain.1.1).append _).append _).append _
  all_goals exact absurd plain (by simp [Expr.Plain])

/-- An operator in front of an expression is no part of a longer symbol. -/
theorem UnaryOp.stopsBefore_render (op : UnaryOp) {e : Expr} (plain : e.Plain) :
    op.lexeme.StopsBefore e.render.bytes := by
  intro b hb
  obtain ⟨b', head, begins⟩ := Expr.begins_render plain
  obtain rfl : b' = b := Option.some.inj (head.symm.trans hb)
  have free : b' ∉ [0x2B, 0x2D, 0x3D] := by
    intro h
    simp only [List.mem_cons, List.not_mem_nil, or_false] at h
    rcases h with rfl | rfl | rfl <;> exact absurd begins (by decide)
  simp only [List.mem_cons, List.not_mem_nil, or_false, not_or] at free
  cases op <;> simp [UnaryOp.lexeme, Lexeme.stopsAt, Lexeme.lengthening, free]

theorem BinaryOp.written {op : BinaryOp} {as bs : List Lexeme} {left right : List UInt8} (l : Written as left)
    (r : Written bs right) :
    Written (as ++ op.lexeme :: bs) (left ++ ([0x20] ++ (op.lexeme.bytes ++ ([0x20] ++ right)))) := by
  have stops : op.lexeme.StopsBefore ([0x20] ++ right) :=
    Lexeme.stopsBefore_cons (op.lexeme.stopsAt_separator (by decide)) right
  have operator : Written (op.lexeme :: bs) (op.lexeme.bytes ++ ([0x20] ++ right)) :=
    (r.gap blank_space).push op.lexeme_formed stops
  exact l.append (operator.gap blank_space) (Lexeme.separated (by decide) _)

namespace Expr

/-- The texts of further elements of a list. -/
def moreText (es : List Expr) : List UInt8 := (renderAll es).flatMap fun t => (", " : Text).bytes ++ t.bytes

/-- Further elements begin with a comma, if there are any. -/
theorem moreText_first (es : List Expr) : ∀ b, (moreText es).head? = some b → b ∈ Lexeme.separators := by
  cases es with
  | nil => exact fun b hb => nomatch hb
  | cons e es => exact Lexeme.separated (by decide : 0x2C ∈ Lexeme.separators) _

mutual

/-- The text of an expression is one of its spellings. -/
theorem spelled_render : ∀ e : Expr, e.Plain →
    ∃ as, Spelled (.expr operandLevel e) as ∧ Written as e.render.bytes
  | name m v, plain => by
    obtain ⟨⟨formed, lower, kind⟩, rfl⟩ := plain
    exact ⟨_, Spelled.name m lower kind, Written.single formed⟩
  | int m n, plain => by
    obtain ⟨formed, small, rfl⟩ := plain
    exact ⟨_, Spelled.int m small, Written.single formed⟩
  | long m n, plain => by
    obtain ⟨formed, small, rfl⟩ := plain
    have whole : (Lexeme.long m.literal.bytes 0x4C).Formed := ⟨formed.1, formed.2, .inr rfl⟩
    exact ⟨_, Spelled.long m 0x4C small, Written.single whole⟩
  | bool m b, plain => by
    cases b
    · have literal : m.literal = ("false" : Text) := plain
      have word : Text.lowerAscii ⟨("false" : Text).bytes⟩ = m.literal := literal.symm
      have formed : (Lexeme.word ("false" : Text).bytes).Formed := ⟨_, _, rfl, rfl, rfl⟩
      exact ⟨_, Spelled.bool m false word literal, Written.single formed⟩
    · have literal : m.literal = ("true" : Text) := plain
      have word : Text.lowerAscii ⟨("true" : Text).bytes⟩ = m.literal := literal.symm
      have formed : (Lexeme.word ("true" : Text).bytes).Formed := ⟨_, _, rfl, rfl, rfl⟩
      exact ⟨_, Spelled.bool m true word literal, Written.single formed⟩
  | null m, plain => by
    have literal : m.literal = ("null" : Text) := plain
    have word : Text.lowerAscii ⟨("null" : Text).bytes⟩ = m.literal := literal.symm
    have formed : (Lexeme.word ("null" : Text).bytes).Formed := ⟨_, _, rfl, rfl, rfl⟩
    exact ⟨_, Spelled.null m word literal, Written.single formed⟩
  | array m es, plain => by
    obtain ⟨as, spelled, written⟩ := spelled_list es plain
    refine ⟨_, Spelled.array m spelled, ?_⟩
    have shape : (array m es).render.bytes = 0x5B :: ((Text.join ", " (renderAll es)).bytes ++ [0x5D]) := by
      simp only [render]
      rfl
    rw [shape]
    exact written.brackets
  | unary m op e, plain => by
    obtain ⟨as, spelled, written⟩ := spelled_render e plain
    refine ⟨_, Spelled.paren (Spelled.unary m op spelled (by decide)), ?_⟩
    have shape : (unary m op e).render.bytes = 0x28 :: ((op.lexeme.bytes ++ e.render.bytes) ++ [0x29]) := by
      simp only [render]
      cases op <;> rfl
    rw [shape]
    exact (written.push op.lexeme_formed (op.stopsBefore_render plain)).parens
  | binary m op l r, plain => by
    obtain ⟨as, spelledLeft, writtenLeft⟩ := spelled_render l plain.1
    obtain ⟨bs, spelledRight, writtenRight⟩ := spelled_render r plain.2
    refine ⟨_, Spelled.paren (Spelled.binary m op spelledLeft spelledRight op.lexeme_spelledBy (by cases op <;> decide)
      (by cases op <;> decide)), ?_⟩
    have shape : (binary m op l r).render.bytes = 0x28 ::
        ((l.render.bytes ++ ([0x20] ++ (op.lexeme.bytes ++ ([0x20] ++ r.render.bytes)))) ++ [0x29]) := by
      simp only [render, op.lexeme_bytes, List.append_assoc]
      change ((((([0x28] ++ l.render.bytes) ++ [0x20]) ++ _) ++ [0x20]) ++ r.render.bytes) ++ [0x29] = _
      simp only [List.append_assoc]
      rfl
    rw [shape]
    exact (BinaryOp.written writtenLeft writtenRight).parens
  | index m c k, plain => by
    obtain ⟨as, spelled, written⟩ := spelled_render c plain.1
    obtain ⟨bs, spelledKey, writtenKey⟩ := spelled_render k plain.2
    refine ⟨_, Spelled.paren (Spelled.index m spelled spelledKey), ?_⟩
    have shape : (index m c k).render.bytes = 0x28 :: ((c.render.bytes ++ 0x5B :: (k.render.bytes ++ [0x5D])) ++ [0x29]) := by
      simp only [render]
      change (([0x28] ++ c.render.bytes ++ [0x5B]) ++ k.render.bytes) ++ [0x5D, 0x29] = _
      simp
    rw [shape]
    exact (written.append writtenKey.brackets (Lexeme.separated (by decide) _)).parens
  | call m f args names builtin result, plain => by
    obtain ⟨⟨formed, lower, kind⟩, plain, rfl, rfl, rfl⟩ := plain
    obtain ⟨as, spelled, written⟩ := spelled_list args plain
    have function := Spelled.name ⟨f, 0⟩ lower kind
    refine ⟨_, Spelled.call m ⟨f, 0⟩ function spelled, ?_⟩
    have shape : (call m f args [] false "").render.bytes =
        f.bytes ++ 0x28 :: ((Text.join ", " (renderAll args)).bytes ++ [0x29]) := by
      have unnamed : labelled [] (renderAll args) = renderAll args := by rw [labelled]; simp
      simp only [render, unnamed]
      change ((f.bytes ++ [0x28]) ++ _) ++ [0x29] = _
      simp
    rw [shape]
    exact (Written.single formed).append written.parens (Lexeme.separated (by decide) _)
  | double .., plain | string .., plain | date .., plain | object .., plain | assign .., plain | step .., plain
  | length .., plain | member .., plain | typeOf .., plain => absurd plain (by simp [Plain])

/-- So are the texts of the elements of a list with commas between them. -/
theorem spelled_list : ∀ es : List Expr, PlainAll es →
    ∃ as, Spelled (.list es) as ∧ Written as (Text.join ", " (renderAll es)).bytes
  | [], _ => ⟨[], .empty, .nil fun _ hb => nomatch hb⟩
  | e :: es, plain => by
    obtain ⟨as, spelled, written⟩ := spelled_render e plain.1
    obtain ⟨bs, spelledMore, writtenMore⟩ := spelled_more es plain.2
    refine ⟨_, Spelled.list spelled spelledMore, ?_⟩
    have shape : (Text.join ", " (renderAll (e :: es))).bytes = e.render.bytes ++ moreText es := by
      simp only [renderAll]
      rfl
    rw [shape]
    exact written.append writtenMore (moreText_first es)

/-- So are the texts of further elements of a list. -/
theorem spelled_more : ∀ es : List Expr, PlainAll es → ∃ as, Spelled (.more es) as ∧ Written as (moreText es)
  | [], _ => ⟨[], .last, .nil fun _ hb => nomatch hb⟩
  | e :: es, plain => by
    obtain ⟨as, spelled, written⟩ := spelled_render e plain.1
    obtain ⟨bs, spelledMore, writtenMore⟩ := spelled_more es plain.2
    refine ⟨_, Spelled.more spelled spelledMore, ?_⟩
    have shape : moreText (e :: es) = Lexeme.comma.bytes ++ ([0x20] ++ (e.render.bytes ++ moreText es)) := by
      unfold moreText
      simp only [renderAll, List.flatMap_cons, List.append_assoc]
      rfl
    rw [shape]
    exact ((written.append writtenMore (moreText_first es)).gap blank_space).push (Lexeme.formed_symbol (by decide))
      fun _ _ => rfl

end

end Expr

/-! ## Reading the spellings of expressions -/

namespace Parser

variable {c : Catalog} {rec : Reader} {s s' : ParseState} {t u : Token} {ts us : List Token}

/-! ## Statements -/

/-- A statement that begins as an expression is one. -/
theorem goes_statement (ht : t.kind ∈ Spelled.starts) (hu : u.kind ≠ .kwTypeof) :
    Goes (statement c rec) (s.on (t :: u :: ts))
      (rec (.expr lowest) >>= fun e : Expr => pure (.expr (markOf t) e)) (s.on (t :: u :: ts)) := by
  have expr : Goes (exprStatement rec) (s.on (t :: u :: ts))
      (rec (.expr lowest) >>= fun e : Expr => pure (.expr (markOf t) e)) (s.on (t :: u :: ts)) := goes_mark.bind _
  unfold statement
  refine goes_mark.andThen ?_
  refine goes_current.andThen ?_
  simp only [Spelled.starts, List.mem_cons, List.not_mem_nil, or_false] at ht
  rcases ht with ht | ht | ht | ht | ht | ht | ht | ht | ht | ht | ht | ht <;> simp only [ht]
  case inl =>
    refine (goes_peekIs .kwTypeof).andThen ?_
    rw [if_neg (by simp [hu])]
    exact expr
  all_goals exact expr

theorem goes_attempt {α : Type} {x : ParseM α} {a : α} (h : Goes x s (pure a) s') :
    Goes (attempt x) s (pure (some a)) s' := by
  have run : x.run.run s = (some a, s') := h
  unfold Goes attempt
  simp only [OptionT.run_mk, StateT.run_bind, run]
  rfl

/-- A statement that is read without faults is listed; the semicolon behind it is passed over. -/
theorem goes_listedStatement {st : Stmt} {e : Token}
    (h : Goes (α := Stmt) (rec .stmt) (s.on ts) (pure st) (s.on (t :: u :: e :: us))) (hu : u.kind = .semicolon) :
    Goes (listedStatement rec) (s.on ts) (pure (some st)) (s.on (u :: e :: us)) := by
  have count (ts : List Token) : Goes faultCount (s.on ts) (pure s.faults.length) (s.on ts) := rfl
  unfold listedStatement
  refine (count ts).andThen ?_
  refine (goes_attempt h).andThen ?_
  refine (goes_peekIs .semicolon).andThen ?_
  rw [if_pos (decide_eq_true hu)]
  refine goes_advance.andThen ?_
  refine (count _).andThen ?_
  rw [if_neg (Nat.lt_irrefl _)]
  exact Goes.refl _ _

/-- The statement before the end of the tokens is the last one. -/
theorem goes_programBody {n : Nat} {st : Stmt} {e : Token} (ht : t.kind ≠ .eof) (he : e.kind = .eof)
    (h : Goes (listedStatement rec) (s.on (t :: ts)) (pure (some st)) (s.on [u, e])) :
    Goes (programBody rec (n + 2) []) (s.on (t :: ts)) (pure [st]) (s.on [e]) := by
  have isEof {t : Token} {ts : List Token} :
      Goes (currentIs .eof) (s.on (t :: ts)) (pure (decide (t.kind = .eof))) (s.on (t :: ts)) := rfl
  rw [programBody]
  refine isEof.andThen ?_
  rw [if_neg (by simp [ht])]
  refine h.andThen ?_
  refine goes_advance.andThen ?_
  rw [programBody]
  refine isEof.andThen ?_
  rw [if_pos (decide_eq_true he)]
  exact Goes.refl _ _

/-- A spelling before a semicolon is read as a statement. -/
theorem goes_spelled {e : Expr} {p depth : Nat} {as : List Lexeme} (spelled : Spelled (.expr p e) as)
    (formed : ∀ a ∈ as, a.Formed) (c : Catalog) (s : ParseState) (deep : as.length < depth) (shown : Shows as ts)
    (hu : u.kind = .semicolon) (rest : List Token) : ∃ m e' t, e'.bare = e.bare ∧
      Goes (α := Stmt) (read c (depth + 1) .stmt) (s.on (ts ++ u :: rest)) (pure (.expr m e'))
        (s.on (t :: u :: rest)) := by
  have reads : ReadsExpr c as p e := spelled.reads c formed
  obtain ⟨e', t', same, goes⟩ := reads.enclosed s rest spelled.level_bounds.1 deep
    (by rw [hu]; rfl : level u.kind = lowest) shown
  -- the first token begins an expression, and the second does not make the declaration of a type of it
  obtain ⟨a, others, rfl, starts⟩ := spelled.first
  obtain ⟨t, us, rfl, face, -⟩ := shown.cons
  have ht : t.kind ∈ Spelled.starts := Token.kind_of_face face ▸ starts
  have noTypeof : u.kind ≠ .kwTypeof := by rw [hu]; decide
  obtain ⟨v, vs, shape, hv⟩ := second_token (fun b hb => (spelled.no_assign b hb).2) shown noTypeof rest
  rw [List.cons_append, shape] at goes ⊢
  exact ⟨markOf t, e', t', same, (goes_statement ht hv).trans (goes.bind _)⟩

end Parser

/-! ## Programs -/

/-- The text of a spelling with a semicolon behind it is read as a program of one statement, without faults. -/
theorem Program.parse_written (c : Catalog) {e : Expr} {p : Nat} {as : List Lexeme} {text : List UInt8}
    (spelled : Spelled (.expr p e) as) (written : Written as text) :
    ∃ m e', Program.parse c ⟨text ++ [0x3B]⟩ = (⟨[.expr m e']⟩, []) ∧ e'.bare = e.bare := by
  have ended : Written (as ++ [.semicolon]) (text ++ [0x3B]) :=
    written.append (Written.single (Lexeme.formed_symbol (by decide))) (Lexeme.separated (by decide) [])
  obtain ⟨ts, eof, scanned, shown, hEof⟩ := Token.scan_written ended
  obtain ⟨ts, zs, rfl, shownExpr, shownEnd⟩ := Shows.append shown
  obtain ⟨z, rfl, faceZ⟩ := shownEnd.singleton
  have hz : z.kind = .semicolon := Token.kind_of_face faceZ
  have tokens : ts ++ [z] ++ [eof] = ts ++ z :: [eof] := by rw [List.append_assoc, List.singleton_append]
  have length : (ts ++ z :: [eof]).length = as.length + 2 := by
    rw [List.length_append, shownExpr.length]
    rfl
  let s := Parser.initialState (ts ++ z :: [eof])
  obtain ⟨m, e', t', same, statement⟩ := Parser.goes_spelled spelled written.formed c s
    (by omega : as.length < 4 * (as.length + 2) + 7) shownExpr hz [eof]
  have listed := Parser.goes_listedStatement statement hz
  obtain ⟨a, others, rfl, starts⟩ := spelled.first
  obtain ⟨t, us, rfl, face, -⟩ := shownExpr.cons
  have ht : t.kind ≠ .eof := by
    rw [Token.kind_of_face face]
    intro h
    rw [h] at starts
    exact absurd starts (by decide)
  have body := Parser.goes_programBody (n := (a :: others).length + 1) ht hEof listed
  have run : (Parser.programBody (Parser.read c (4 * ((a :: others).length + 2) + 8))
      ((a :: others).length + 2 + 1) []).run.run s = (some [.expr m e'], s.on [eof]) := body
  refine ⟨m, e', ?_, same⟩
  unfold Program.parse
  rw [scanned, tokens]
  dsimp only
  rw [length, run]
  rfl

/-- An operator expression is what is read of each of its spellings, and of the text that it is shown as, with a
semicolon behind it: one statement, and no faults. -/
theorem Program.parse_spelled (c : Catalog) (e : Expr) :
    (∀ p as text, Spelled (.expr p e) as → Written as text →
      ∃ m e', Program.parse c ⟨text ++ [0x3B]⟩ = (⟨[.expr m e']⟩, []) ∧ e'.bare = e.bare) ∧
    (e.Plain → ∃ m e', Program.parse c (e.render ++ ";") = (⟨[.expr m e']⟩, []) ∧ e'.bare = e.bare) := by
  constructor
  · intro p as text spelled written
    exact Program.parse_written c spelled written
  · intro plain
    obtain ⟨as, spelled, written⟩ := Expr.spelled_render e plain
    exact Program.parse_written c spelled written

/-- A power of a negated element of an array, spelled as tightly as it can be, and as it is shown. -/
theorem Program.parse_spelled_power :
    let e : Expr := .binary default .pow (.name ⟨"a", 1⟩ "a")
      (.unary default .negate (.index default (.name ⟨"b", 1⟩ "b") (.int ⟨"1", 1⟩ 1)))
    let as : List Lexeme := [.word [0x41], .symbol .caret "^", .symbol .minus "-", .word [0x62], .lbracket,
      .digits [0x31], .rbracket]
    (Spelled (.expr 10 e) as ∧ Written as ("A^-b[1]" : Text).bytes ∧
      ∃ m e', Program.parse default ⟨("A^-b[1]" : Text).bytes ++ [0x3B]⟩ = (⟨[.expr m e']⟩, []) ∧ e'.bare = e.bare) ∧
    (e.Plain ∧ ∃ m e', Program.parse default (e.render ++ ";") = (⟨[.expr m e']⟩, []) ∧ e'.bare = e.bare) := by
  intro e as
  have spelled : Spelled (.expr 10 e) as := by
    have a : Spelled (.expr 11 (.name ⟨"a", 1⟩ "a")) [.word [0x41]] := .name ⟨"a", 1⟩ rfl rfl
    have b : Spelled (.expr 11 (.name ⟨"b", 1⟩ "b")) [.word [0x62]] := .name ⟨"b", 1⟩ rfl rfl
    have one : Spelled (.expr 11 (.int ⟨"1", 1⟩ 1)) [.digits [0x31]] := .int ⟨"1", 1⟩ (by decide)
    have power : BinaryOp.pow.SpelledBy (.symbol .caret "^") := by
      unfold BinaryOp.SpelledBy BinaryOp.symbols
      decide
    exact .binary default .pow a (.unary default .negate (.index default b one) (by decide)) power (by decide)
      (by decide)
  have written : Written as ("A^-b[1]" : Text).bytes := by
    have close : Written [.rbracket] [0x5D] := Written.single (Lexeme.formed_symbol (by decide))
    have key : Written [.digits [0x31], .rbracket] [0x31, 0x5D] :=
      close.push ⟨by decide, by decide⟩ (Lexeme.stopsBefore_cons (by decide) [])
    have brackets : Written [.lbracket, .digits [0x31], .rbracket] [0x5B, 0x31, 0x5D] :=
      key.push (a := .lbracket) (Lexeme.formed_symbol (by decide)) (Lexeme.stopsBefore_cons rfl _)
    have element := brackets.push (a := .word [0x62]) ⟨0x62, [], rfl, rfl, rfl⟩ (Lexeme.stopsBefore_cons (by decide) _)
    have negated := element.push (a := .symbol .minus "-") (Lexeme.formed_symbol (by decide))
      (Lexeme.stopsBefore_cons (by decide) _)
    have power := negated.push (a := .symbol .caret "^") (Lexeme.formed_symbol (by decide))
      (Lexeme.stopsBefore_cons (by decide) _)
    exact power.push (a := .word [0x41]) ⟨0x41, [], rfl, rfl, rfl⟩ (Lexeme.stopsBefore_cons (by decide) _)
  have isName (b : UInt8) (letter : Cursor.isLetter b = true) (lower : Text.lowerByte b = b)
      (kind : Token.Kind.ofWord ⟨[b]⟩ = .ident) : Text.IsName ⟨[b]⟩ :=
    ⟨⟨b, [], rfl, letter, rfl⟩, by simp [Text.lowerAscii, lower], kind⟩
  have plain : e.Plain :=
    ⟨⟨isName 0x61 rfl rfl rfl, rfl⟩, ⟨isName 0x62 rfl rfl rfl, rfl⟩, ⟨by decide, by decide⟩, by decide, rfl⟩
  exact ⟨⟨spelled, written, (Program.parse_spelled default e).1 10 as _ spelled written⟩,
    plain, (Program.parse_spelled default e).2 plain⟩

end ScriptEngine
