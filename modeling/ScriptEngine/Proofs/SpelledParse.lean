import ScriptEngine.Proofs.LexemeScan
import ScriptEngine.Proofs.ParserSteps
/-!
# Spelled expressions are read back

The reader of expressions takes in operands and operators by their levels. Here it is shown that it reads every
spelling of an operator expression as that expression: the levels that it passes on from an operator to its right
operand are those of the table of precedence.
-/

namespace ScriptEngine

/-! ## What lexemes are spellings -/

/-- A name without dots contains none. -/
theorem Lexeme.undotted {w : List UInt8} (formed : (Lexeme.word w).Formed) :
    (Text.lowerAscii ⟨w⟩).contains "." = false := by
  have free : ∀ bs : List UInt8, 0x2E ∉ bs → Text.findBytes [0x2E] bs = none := by
    intro bs
    induction bs with
    | nil => exact fun _ => rfl
    | cons b rest ih =>
      intro hb
      have other : ¬0x2E = b := fun h => hb (h ▸ List.mem_cons_self)
      rw [Text.findBytes, ih fun h => hb (List.mem_cons_of_mem b h)]
      simp [other]
  have letters : ∀ b, Cursor.isWordByte b = true → Text.lowerByte b ≠ 0x2E := by
    intro b hb eq
    unfold Text.lowerByte at eq
    split at eq
    · next capital =>
      simp [← UInt8.toNat_inj, UInt8.le_iff_toNat_le] at capital eq
      omega
    · rw [eq] at hb
      exact absurd hb (by decide)
  obtain ⟨b, rest, rfl, letter, inside⟩ := formed
  have all : ∀ x ∈ b :: rest, Cursor.isWordByte x = true := by
    intro x hx
    rcases List.mem_cons.mp hx with rfl | hx
    · simp [Cursor.isWordByte, letter]
    · exact List.all_eq_true.mp inside x hx
  have none : Text.findBytes [0x2E] ((b :: rest).map Text.lowerByte) = none := by
    refine free _ fun h => ?_
    obtain ⟨x, hx, eq⟩ := List.mem_map.mp h
    exact letters x (all x hx) eq
  unfold Text.contains Text.find?
  change (Text.findBytes [0x2E] ((b :: rest).map Text.lowerByte)).isSome = false
  rw [none]
  rfl

namespace Spelled

/-- The levels of expressions lie above those of assignments. -/
theorem level_bounds {p : Nat} {e : Expr} {as : List Lexeme} (h : Spelled (.expr p e) as) :
    3 ≤ p ∧ p ≤ operandLevel := by
  cases h
  case binary op _ _ _ _ _ _ _ _ _ _ _ _ => cases op <;> decide
  all_goals decide

/-- The kinds of tokens that begin an expression. -/
def starts : List Token.Kind :=
  [.ident, .int, .long, .kwTrue, .kwFalse, .kwNull, .lparen, .bang, .minus, .plus, .lbracket, .hash]

theorem kind_digits_int {ds : List UInt8} (small : Cursor.decimalValue ds < 2 ^ 31) :
    (Lexeme.digits ds).kind = .int := by
  simp only [Lexeme.kind]
  rw [if_neg (by omega), if_neg (by omega)]

theorem kind_digits_long {ds : List UInt8} (small : Cursor.decimalValue ds < 2 ^ 63)
    (large : 2 ^ 31 ≤ Cursor.decimalValue ds) : (Lexeme.digits ds).kind = .long := by
  simp only [Lexeme.kind]
  rw [if_neg (by omega), if_pos large]

theorem kind_bool {w : List UInt8} {b : Bool}
    (word : Text.lowerAscii ⟨w⟩ = ((if b then "true" else "false" : String) : Text)) :
    (Lexeme.word w).kind = if b then .kwTrue else .kwFalse := by
  simp only [Lexeme.kind]
  rw [word]
  cases b <;> rfl

theorem kind_null {w : List UInt8} (word : Text.lowerAscii ⟨w⟩ = ("null" : String)) :
    (Lexeme.word w).kind = .kwNull := by
  simp only [Lexeme.kind]
  rw [word]
  rfl

end Spelled

/-- A lexeme that spells an operator is read as the operator. -/
theorem BinaryOp.SpelledBy.kind {op : BinaryOp} {o : Lexeme} (h : op.SpelledBy o) :
    Parser.binaryOp? o.kind = some op := by
  cases o with
  | symbol k s =>
    have table : ∀ op : BinaryOp, ∀ p ∈ op.symbols, Parser.binaryOp? p.1 = some op := by
      intro op
      cases op <;> decide
    exact table op (k, s) h
  | word bs =>
    obtain ⟨w, hw, eq⟩ := h
    simp only [Lexeme.kind]
    rw [eq]
    cases op <;> simp only [BinaryOp.word?, Option.some.injEq, reduceCtorEq] at hw <;> subst hw <;> rfl
  | _ => exact h.elim

/-- An operator is read with its level. -/
theorem Parser.level_binaryOp {k : Token.Kind} {op : BinaryOp} (h : Parser.binaryOp? k = some op) :
    Parser.level k = op.level := by
  cases k
  all_goals
    first
      | obtain rfl := Option.some.inj h
        rfl
      | cases h

namespace Spelled

/-- The first lexeme of an expression begins one. -/
theorem first {p : Nat} {e : Expr} {as : List Lexeme} (h : Spelled (.expr p e) as) :
    ∃ a rest, as = a :: rest ∧ a.kind ∈ starts := by
  generalize shape : Phrase.expr p e = phrase at h
  induction h generalizing p e with
  | name m word kind => exact ⟨_, [], rfl, by simp [Lexeme.kind, word, kind, starts]⟩
  | int m small => exact ⟨_, [], rfl, by simp [kind_digits_int small, starts]⟩
  | long m suffix small => exact ⟨_, [], rfl, by simp [Lexeme.kind, starts]⟩
  | longDigits m small large => exact ⟨_, [], rfl, by simp [kind_digits_long small large, starts]⟩
  | bool m b word value => exact ⟨_, [], rfl, by cases b <;> simp [kind_bool (word.trans value), starts]⟩
  | null m word value => exact ⟨_, [], rfl, by simp [kind_null (word.trans value), starts]⟩
  | paren inner => exact ⟨_, _, rfl, by simp [Lexeme.kind, Lexeme.lparen, starts]⟩
  | unary m op operand tight => exact ⟨_, _, rfl, by cases op <;> simp [Lexeme.kind, UnaryOp.lexeme, starts]⟩
  | binary m op left right spelled tightLeft tightRight ihLeft ihRight =>
    obtain ⟨a, rest, rfl, ha⟩ := ihLeft rfl
    exact ⟨a, _, rfl, ha⟩
  | index m container key ihContainer ihKey =>
    obtain ⟨a, rest, rfl, ha⟩ := ihContainer rfl
    exact ⟨a, _, rfl, ha⟩
  | array m elements => exact ⟨_, _, rfl, by simp [Lexeme.kind, Lexeme.lbracket, starts]⟩
  | call m m' function args ihFunction ihArgs =>
    obtain ⟨a, rest, rfl, ha⟩ := ihFunction rfl
    exact ⟨a, _, rfl, ha⟩
  | markedCall m kind args => exact ⟨_, _, rfl, by simp [Lexeme.kind, Lexeme.hash, starts]⟩
  | empty | list | last | more => cases shape

/-- No lexeme of an expression names an argument or begins the declaration of a type. -/
theorem no_assign {phrase : Phrase} {as : List Lexeme} (h : Spelled phrase as) :
    ∀ a ∈ as, a.kind ≠ .assign ∧ a.kind ≠ .kwTypeof := by
  induction h with
  | name m word kind => simp [Lexeme.kind, word, kind]
  | int m small => simp [kind_digits_int small]
  | long m suffix small => simp [Lexeme.kind]
  | longDigits m small large => simp [kind_digits_long small large]
  | bool m b word value => cases b <;> simp [kind_bool (word.trans value)]
  | null m word value => simp [kind_null (word.trans value)]
  | paren inner ih =>
    rw [List.forall_mem_cons, List.forall_mem_append, List.forall_mem_singleton]
    exact ⟨by decide, ih, by decide⟩
  | unary m op operand tight ih =>
    rw [List.forall_mem_cons]
    exact ⟨by cases op <;> decide, ih⟩
  | @binary m op o p q l r as bs left right spelled tightLeft tightRight ihLeft ihRight =>
    have operator : o.kind ≠ .assign ∧ o.kind ≠ .kwTypeof := by
      constructor
      all_goals
        intro h
        exact absurd (h ▸ spelled.kind) (by simp [Parser.binaryOp?])
    rw [List.forall_mem_append, List.forall_mem_cons]
    exact ⟨ihLeft, operator, ihRight⟩
  | index m container key ihContainer ihKey =>
    rw [List.forall_mem_append, List.forall_mem_cons, List.forall_mem_append, List.forall_mem_singleton]
    exact ⟨ihContainer, by decide, ihKey, by decide⟩
  | array m elements ih =>
    rw [List.forall_mem_cons, List.forall_mem_append, List.forall_mem_singleton]
    exact ⟨by decide, ih, by decide⟩
  | call m m' function args ihFunction ihArgs =>
    rw [List.forall_mem_append, List.forall_mem_cons, List.forall_mem_append, List.forall_mem_singleton]
    exact ⟨ihFunction, by decide, ihArgs, by decide⟩
  | markedCall m kind args ih =>
    rw [List.forall_mem_cons, List.forall_mem_cons, List.forall_mem_cons, List.forall_mem_append,
      List.forall_mem_singleton]
    exact ⟨by decide, by simp [Lexeme.kind, kind], by decide, ih, by decide⟩
  | empty | last =>
    intro a ha
    cases ha
  | list first rest ihFirst ihRest =>
    rw [List.forall_mem_append]
    exact ⟨ihFirst, ihRest⟩
  | more first rest ihFirst ihRest =>
    rw [List.forall_mem_cons, List.forall_mem_append]
    exact ⟨by decide, ihFirst, ihRest⟩

/-- The function of a call has a name without dots. -/
theorem undotted {p : Nat} {m : Mark} {f : Text} {as : List Lexeme} (h : Spelled (.expr p (.name m f)) as)
    (formed : ∀ a ∈ as, a.Formed) : f.contains "." = false := by
  generalize shape : Phrase.expr p (.name m f) = phrase at h
  induction h generalizing p with
  | name m' word kind =>
    cases shape
    exact word ▸ Lexeme.undotted (formed _ List.mem_cons_self)
  | paren inner ih =>
    cases shape
    exact ih (fun a ha => formed a (List.mem_cons_of_mem _ (List.mem_append_left _ ha))) rfl
  | _ => cases shape

end Spelled

/-! ## Tokens of lexemes -/

/-- Tokens are those of lexemes. -/
def Shows (as : List Lexeme) (ts : List Token) : Prop := ts.map Token.face = as.map Lexeme.face

namespace Shows

variable {as bs : List Lexeme} {a : Lexeme} {ts : List Token}

theorem length (h : Shows as ts) : ts.length = as.length := by
  rw [← List.length_map Token.face, h, List.length_map]

theorem cons (h : Shows (a :: as) ts) : ∃ t us, ts = t :: us ∧ t.face = a.face ∧ Shows as us := by
  obtain ⟨t, us, shape, face, more⟩ := List.map_eq_cons_iff.mp h
  exact ⟨t, us, shape, face, more⟩

theorem append (h : Shows (as ++ bs) ts) : ∃ us vs, ts = us ++ vs ∧ Shows as us ∧ Shows bs vs := by
  unfold Shows at h
  rw [List.map_append] at h
  obtain ⟨us, vs, shape, left, right⟩ := List.map_eq_append_iff.mp h
  exact ⟨us, vs, shape, left, right⟩

theorem singleton (h : Shows [a] ts) : ∃ t, ts = [t] ∧ t.face = a.face := by
  obtain ⟨t, us, shape, face, more⟩ := h.cons
  obtain rfl : us = [] := List.map_eq_nil_iff.mp more
  exact ⟨t, shape, face⟩

theorem enclosed {l r : Lexeme} (h : Shows (l :: (as ++ [r])) ts) :
    ∃ t us z, ts = t :: (us ++ [z]) ∧ t.face = l.face ∧ Shows as us ∧ z.face = r.face := by
  obtain ⟨t, us, rfl, face, h⟩ := h.cons
  obtain ⟨us, vs, rfl, inside, h⟩ := h.append
  obtain ⟨z, rfl, faceZ⟩ := h.singleton
  exact ⟨t, us, z, rfl, face, inside, faceZ⟩

end Shows

theorem Token.kind_of_face {t : Token} {a : Lexeme} (h : t.face = a.face) : t.kind = a.kind := (Prod.mk.inj h).1

theorem Token.literal_of_face {t : Token} {a : Lexeme} (h : t.face = a.face) : t.literal = a.literal :=
  (Prod.mk.inj h).2

/-! ## What is read of lexemes -/

namespace Parser

variable {c : Catalog}

/-- Lexemes are read as an expression of a level: behind an operator that leaves it the level, and up to operators
that do not belong to it, which are taken in next. -/
def ReadsExpr (c : Catalog) (as : List Lexeme) (p : Nat) (e : Expr) : Prop :=
  ∀ (depth bound : Nat) (s : ParseState) (ts : List Token) (r : Token) (rest : List Token), as.length ≤ depth →
    (p = UnaryOp.level ∨ bound < p) → (p = operandLevel ∨ level r.kind ≤ p ∧ level r.kind ≤ UnaryOp.level) →
    Shows as ts → ∃ n e' t, rest.length < n ∧ e'.bare = e.bare ∧
      Goes (expression c (read c depth) bound) (s.on (ts ++ r :: rest))
        (continuations c (read c depth) bound n e') (s.on (t :: r :: rest))

/-- Lexemes that are behind the first element of a list are read up to the token that closes the list, in brackets and
in the arguments of a call. -/
def ReadsMore (c : Catalog) (as : List Lexeme) (es : List Expr) : Prop :=
  ∀ (depth n : Nat) (done : List Expr) (s : ParseState) (t : Token) (ts : List Token) (z : Token) (rest : List Token),
    as.length ≤ depth → as.length < n → Shows as ts →
    (z.kind = .rbracket → ∃ es', Expr.bareAll es' = Expr.bareAll es ∧
      Goes (moreExprs (read c depth) .rbracket n done) (s.on (t :: (ts ++ z :: rest)))
        (pure (done.reverse ++ es')) (s.on (z :: rest))) ∧
    (z.kind = .rparen → ∃ es', Expr.bareAll es' = Expr.bareAll es ∧
      Goes (afterArg (read c depth) n done) (s.on (t :: (ts ++ z :: rest)))
        (pure (done.reverse ++ es', [])) (s.on (z :: rest)))

/-- Lexemes are read as the elements of a list, in brackets and in the arguments of a call. -/
def ReadsList (c : Catalog) (as : List Lexeme) (es : List Expr) : Prop :=
  ∀ (depth : Nat) (s : ParseState) (t : Token) (ts : List Token) (z : Token) (rest : List Token),
    as.length < depth → Shows as ts →
    (z.kind = .rbracket → ∃ es', Expr.bareAll es' = Expr.bareAll es ∧
      Goes (exprList (read c depth) .rbracket) (s.on (t :: (ts ++ z :: rest))) (pure es') (s.on (z :: rest))) ∧
    (z.kind = .rparen → ∃ es', Expr.bareAll es' = Expr.bareAll es ∧
      Goes (arguments (read c depth)) (s.on (t :: (ts ++ z :: rest))) (pure (es', [])) (s.on (z :: rest)))

/-- An expression is read as a whole where what follows binds no more tightly than what came before. -/
theorem ReadsExpr.whole {as : List Lexeme} {p bound depth : Nat} {e : Expr} {ts : List Token} {r : Token}
    (h : ReadsExpr c as p e) (s : ParseState) (rest : List Token) (deep : as.length < depth) (tight : p = UnaryOp.level ∨ bound < p)
    (ends : p = operandLevel ∨ level r.kind ≤ p ∧ level r.kind ≤ UnaryOp.level) (stops : level r.kind ≤ bound)
    (shown : Shows as ts) : ∃ e' t, e'.bare = e.bare ∧
      Goes (α := Expr) (read c depth (.expr bound)) (s.on (ts ++ r :: rest)) (pure e') (s.on (t :: r :: rest)) := by
  obtain ⟨depth, rfl⟩ := Nat.exists_eq_add_one_of_ne_zero (Nat.ne_zero_of_lt deep)
  obtain ⟨n, e', t, fuel, same, goes⟩ := h depth bound s ts r rest (Nat.le_of_lt_succ deep) tight ends shown
  obtain ⟨n, rfl⟩ := Nat.exists_eq_add_one_of_ne_zero (Nat.ne_zero_of_lt fuel)
  exact ⟨e', t, same, goes.trans (continuations_stop stops)⟩

/-- An expression is read as a whole up to a token that is no operator. -/
theorem ReadsExpr.enclosed {as : List Lexeme} {p depth : Nat} {e : Expr} {ts : List Token} {r : Token}
    (h : ReadsExpr c as p e) (s : ParseState) (rest : List Token) (bounds : 3 ≤ p) (deep : as.length < depth)
    (closing : level r.kind = lowest) (shown : Shows as ts) : ∃ e' t, e'.bare = e.bare ∧
      Goes (α := Expr) (read c depth (.expr lowest)) (s.on (ts ++ r :: rest)) (pure e') (s.on (t :: r :: rest)) :=
  h.whole s rest deep (.inr (by unfold lowest; omega))
    (.inr ⟨by rw [closing]; unfold lowest; omega, by rw [closing]; decide⟩) (Nat.le_of_eq closing) shown

/-! ## Operands -/

/-- A lexeme that is an operand. -/
theorem readsExpr_leaf {a : Lexeme} {e : Expr}
    (h : ∀ (s : ParseState) (t : Token) (ts : List Token) (rec : Reader), t.face = a.face →
      ∃ e', e'.bare = e.bare ∧ Goes (operand c rec) (s.on (t :: ts)) (pure e') (s.on (t :: ts))) :
    ReadsExpr c [a] operandLevel e := by
  intro depth bound s ts r rest deep tight ends shown
  obtain ⟨t, rfl, face⟩ := shown.singleton
  obtain ⟨e', same, goes⟩ := h s t (r :: rest) (read c depth) face
  exact ⟨_, e', t, by simp only [List.length_cons]; omega, same, expression_of_operand bound goes⟩

theorem readsExpr_paren {as : List Lexeme} {p : Nat} {e : Expr} (h : ReadsExpr c as p e) (bounds : 3 ≤ p) :
    ReadsExpr c (.lparen :: (as ++ [.rparen])) operandLevel e := by
  intro depth bound s ts r rest deep tight ends shown
  obtain ⟨l, us, z, rfl, faceL, inside, faceZ⟩ := shown.enclosed
  have closes : z.kind = .rparen := Token.kind_of_face faceZ
  simp only [List.length_cons, List.length_append] at deep
  obtain ⟨e', t, same, goes⟩ := h.enclosed s (r :: rest) bounds (by omega : as.length < depth)
    (by rw [closes]; rfl : level z.kind = lowest) inside
  refine ⟨_, e', z, ?_, same, expression_of_operand bound ?_⟩
  case refine_2 =>
    rw [List.cons_append, List.append_assoc]
    refine (operand_paren (Token.kind_of_face faceL)).trans ?_
    refine goes.andThen ?_
    exact (goes_expect closes).bind _
  simp only [List.length_cons]
  omega

/-! ## Operators -/

theorem readsExpr_unary (m : Mark) (op : UnaryOp) {as : List Lexeme} {p : Nat} {e : Expr} (h : ReadsExpr c as p e)
    (tight : UnaryOp.level ≤ p) : ReadsExpr c (op.lexeme :: as) UnaryOp.level (.unary m op e) := by
  intro depth bound s ts r rest deep _ ends shown
  obtain ⟨o, us, rfl, face, shown⟩ := shown.cons
  have stops : level r.kind ≤ UnaryOp.level := ends.elim (fun h => absurd h (by decide)) And.right
  have above : p = UnaryOp.level ∨ UnaryOp.level < p := by omega
  obtain ⟨e', t, same, goes⟩ := h.whole s rest deep above
    (.inr ⟨Nat.le_trans stops tight, stops⟩) stops shown
  refine ⟨_, .unary (markOf o) op e', t, ?_, by simp only [Expr.bare, same], expression_of_operand bound ?_⟩
  case refine_2 => exact (operand_unary (Token.kind_of_face face)).trans (goes.bind _)
  simp only [List.length_cons]
  omega

/-- A left operand is read before its operator, which takes a right operand of at least its level. -/
theorem readsExpr_binary (m : Mark) {op : BinaryOp} {o : Lexeme} {as bs : List Lexeme} {p q : Nat} {l r : Expr}
    (left : ReadsExpr c as p l) (right : ReadsExpr c bs q r) (spelled : op.SpelledBy o) (tightLeft : op.leftLevel ≤ p)
    (tightRight : op.rightLevel ≤ q) (bounded : p ≤ operandLevel) :
    ReadsExpr c (as ++ o :: bs) op.level (.binary m op l r) := by
  intro depth bound s ts u rest deep tight ends shown
  obtain ⟨us, vs, rfl, shownLeft, shown⟩ := shown.append
  obtain ⟨w, vs, rfl, face, shownRight⟩ := shown.cons
  simp only [List.length_append, List.length_cons] at deep
  have operator : binaryOp? w.kind = some op := Token.kind_of_face face ▸ spelled.kind
  have levels : level w.kind = op.level := level_binaryOp operator
  -- the operator belongs to the expression, what follows the expression does not belong to its right operand
  have takes : bound < op.level := tight.resolve_left (by cases op <;> decide)
  have stops : level u.kind ≤ op.level ∧ level u.kind ≤ UnaryOp.level := ends.resolve_left (by cases op <;> decide)
  have aroundLeft : (p = UnaryOp.level ∨ bound < p) ∧ (p = operandLevel ∨ op.level ≤ p ∧ op.level ≤ UnaryOp.level) := by
    cases op <;> simp only [BinaryOp.leftLevel, BinaryOp.level, UnaryOp.level, operandLevel] at * <;> omega
  have aroundRight : (q = UnaryOp.level ∨ op.passedOn < q) ∧
      (q = operandLevel ∨ level u.kind ≤ q ∧ level u.kind ≤ UnaryOp.level) ∧ level u.kind ≤ op.passedOn := by
    cases op <;> simp only [BinaryOp.rightLevel, BinaryOp.level, BinaryOp.passedOn, UnaryOp.level, operandLevel,
      unaryLevel] at * <;> omega
  obtain ⟨n, l', t, fuel, sameLeft, goesLeft⟩ := left depth bound s us w (vs ++ u :: rest) (by omega) aroundLeft.1
    (levels ▸ aroundLeft.2) shownLeft
  obtain ⟨r', t', sameRight, goesRight⟩ := right.whole s rest (by omega : bs.length < depth) aroundRight.1
    aroundRight.2.1 aroundRight.2.2 shownRight
  obtain ⟨n, rfl⟩ := Nat.exists_eq_add_one_of_ne_zero (Nat.ne_zero_of_lt fuel)
  simp only [List.length_append, List.length_cons] at fuel
  refine ⟨n, .binary (markOf w) op l' r', t', by omega, by simp only [Expr.bare, sameLeft, sameRight], ?_⟩
  rw [List.append_assoc, List.cons_append]
  refine goesLeft.trans ?_
  have noEnd : w.kind ≠ .semicolon := fun h => by
    rw [h] at operator
    cases operator
  refine (continuations_take (levels ▸ takes) noEnd).trans ?_
  refine Goes.bind ?_ _
  exact (continuation_binary operator).trans (goesRight.bind _)

theorem readsExpr_index (m : Mark) {as bs : List Lexeme} {p : Nat} {e k : Expr} (container : ReadsExpr c as operandLevel e)
    (key : ReadsExpr c bs p k) (bounds : 3 ≤ p) :
    ReadsExpr c (as ++ .lbracket :: (bs ++ [.rbracket])) operandLevel (.index m e k) := by
  intro depth bound s ts u rest deep tight ends shown
  obtain ⟨us, vs, rfl, shownContainer, shown⟩ := shown.append
  obtain ⟨w, vs, z, rfl, face, shownKey, faceZ⟩ := shown.enclosed
  simp only [List.length_append, List.length_cons] at deep
  have opens : w.kind = .lbracket := Token.kind_of_face face
  have closes : z.kind = .rbracket := Token.kind_of_face faceZ
  have takes : bound < operandLevel := tight.resolve_left (by decide)
  obtain ⟨n, e', t, fuel, same, goes⟩ := container depth bound s us w (vs ++ z :: u :: rest) (by omega) tight
    (.inl rfl) shownContainer
  obtain ⟨k', t', sameKey, goesKey⟩ := key.enclosed s (u :: rest) bounds (by omega : bs.length < depth)
    (by rw [closes]; rfl : level z.kind = lowest) shownKey
  obtain ⟨n, rfl⟩ := Nat.exists_eq_add_one_of_ne_zero (Nat.ne_zero_of_lt fuel)
  simp only [List.length_append, List.length_cons] at fuel
  refine ⟨n, .index (markOf w) e' k', z, by omega, by simp only [Expr.bare, same, sameKey], ?_⟩
  have shape : us ++ w :: (vs ++ [z]) ++ u :: rest = us ++ w :: (vs ++ z :: u :: rest) := by simp
  rw [shape]
  refine goes.trans ?_
  refine (continuations_take (by rw [opens]; exact takes) (by rw [opens]; decide)).trans ?_
  refine Goes.bind ?_ _
  refine (continuation_index opens).trans ?_
  refine goesKey.andThen ?_
  exact (goes_expect closes).bind _

/-! ## Lists -/

theorem readsMore_last : ReadsMore c [] [] := by
  intro depth n done s t ts z rest deep fuel shown
  obtain rfl : ts = [] := List.map_eq_nil_iff.mp shown
  obtain ⟨n, rfl⟩ := Nat.exists_eq_add_one_of_ne_zero (Nat.ne_zero_of_lt fuel)
  refine ⟨fun closes => ⟨[], rfl, ?_⟩, fun closes => ⟨[], rfl, ?_⟩⟩
  · rw [List.append_nil]
    exact moreExprs_last closes (by decide)
  · rw [List.append_nil]
    exact afterArg_last closes

/-- What follows an element of a list begins with a comma or closes the list. -/
theorem follows_element {bs : List Lexeme} {es : List Expr} (more : Spelled (.more es) bs) {vs : List Token}
    (shown : Shows bs vs) {z : Token} (closes : z.kind = .rbracket ∨ z.kind = .rparen) (rest : List Token) :
    ∃ r us, vs ++ z :: rest = r :: us ∧ level r.kind = lowest ∧ r.kind ≠ .assign := by
  cases more with
  | last =>
    obtain rfl : vs = [] := List.map_eq_nil_iff.mp shown
    refine ⟨z, rest, rfl, ?_, ?_⟩ <;> rcases closes with h | h <;> rw [h] <;> decide
  | more first others =>
    obtain ⟨w, ws, rfl, face, -⟩ := shown.cons
    have comma : w.kind = .comma := Token.kind_of_face face
    exact ⟨w, ws ++ z :: rest, rfl, by rw [comma]; rfl, by rw [comma]; decide⟩

/-- The second token of lexemes, or the one that follows them, is not of a kind that none of them has. -/
theorem second_token {k : Token.Kind} {as : List Lexeme} (others : ∀ a ∈ as, a.kind ≠ k) {t : Token} {us : List Token}
    (shown : Shows as (t :: us)) {r : Token} (hr : r.kind ≠ k) (rest : List Token) :
    ∃ u vs, us ++ r :: rest = u :: vs ∧ u.kind ≠ k := by
  cases us with
  | nil => exact ⟨r, rest, rfl, hr⟩
  | cons u vs =>
    refine ⟨u, vs ++ r :: rest, rfl, ?_⟩
    have mem : u.face ∈ as.map Lexeme.face := shown ▸ by simp
    obtain ⟨b, hb, face⟩ := List.mem_map.mp mem
    rw [Token.kind_of_face face.symm]
    exact others b hb

/-- An argument of a call is read as the expression that it spells. -/
theorem goes_argument {as : List Lexeme} {p depth : Nat} {e : Expr} {us : List Token} {r : Token}
    (spelled : Spelled (.expr p e) as) (h : ReadsExpr c as p e) (n : Nat) (args : List Expr) (s : ParseState)
    (v : Token) (rest : List Token) (deep : as.length < depth) (shown : Shows as us)
    (hr : level r.kind = lowest ∧ r.kind ≠ .assign) :
    ∃ e' t, e'.bare = e.bare ∧ Goes (moreArgs (read c depth) (n + 1) args []) (s.on (v :: (us ++ r :: rest)))
      (afterArg (read c depth) n (e' :: args)) (s.on (t :: r :: rest)) := by
  obtain ⟨e', t, same, goes⟩ := h.enclosed s rest spelled.level_bounds.1 deep hr.1 shown
  refine ⟨e', t, same, ?_⟩
  obtain ⟨a, others, rfl, -⟩ := spelled.first
  obtain ⟨w, ws, rfl, -, -⟩ := shown.cons
  obtain ⟨u, vs, shape, unnamed⟩ := second_token (fun a ha => (spelled.no_assign a ha).1) shown hr.2 rest
  rw [List.cons_append, shape] at goes ⊢
  exact (moreArgs_step unnamed).trans (goes.bind _)

theorem readsMore_more {as bs : List Lexeme} {p : Nat} {e : Expr} {es : List Expr} (spelled : Spelled (.expr p e) as)
    (others : Spelled (.more es) bs) (first : ReadsExpr c as p e) (more : ReadsMore c bs es) :
    ReadsMore c (.comma :: (as ++ bs)) (e :: es) := by
  intro depth n done s t ts z rest deep fuel shown
  obtain ⟨k, ts, rfl, face, shown⟩ := shown.cons
  obtain ⟨us, vs, rfl, shownFirst, shownMore⟩ := shown.append
  have comma : k.kind = .comma := Token.kind_of_face face
  simp only [List.length_cons, List.length_append] at deep fuel
  obtain ⟨n, rfl⟩ := Nat.exists_eq_add_one_of_ne_zero (Nat.ne_zero_of_lt fuel)
  rw [List.cons_append, List.append_assoc]
  constructor
  · intro closes
    obtain ⟨r, ws, shape, low, -⟩ := follows_element others shownMore (.inl closes) rest
    rw [shape]
    obtain ⟨e', t', same, goes⟩ := first.enclosed s ws spelled.level_bounds.1 (by omega : as.length < depth) low
      shownFirst
    obtain ⟨es', sameMore, goesMore⟩ := (more depth n (e' :: done) s t' vs z rest (by omega) (by omega) shownMore).1
      closes
    refine ⟨e' :: es', by simp only [Expr.bareAll, same, sameMore], ?_⟩
    refine (moreExprs_step comma).trans ?_
    refine goes.andThen ?_
    rw [shape, List.reverse_cons, List.append_assoc] at goesMore
    exact goesMore
  · intro closes
    obtain ⟨r, ws, shape, follows⟩ := follows_element others shownMore (.inr closes) rest
    rw [shape]
    obtain ⟨e', t', same, goes⟩ := goes_argument spelled first n done s k ws (by omega : as.length < depth)
      shownFirst follows
    obtain ⟨es', sameMore, goesMore⟩ := (more depth n (e' :: done) s t' vs z rest (by omega) (by omega) shownMore).2
      closes
    refine ⟨e' :: es', by simp only [Expr.bareAll, same, sameMore], ?_⟩
    refine (afterArg_step comma).trans ?_
    refine goes.trans ?_
    rw [shape, List.reverse_cons, List.append_assoc] at goesMore
    exact goesMore

theorem readsList_empty : ReadsList c [] [] := by
  intro depth s t ts z rest deep shown
  obtain rfl : ts = [] := List.map_eq_nil_iff.mp shown
  exact ⟨fun closes => ⟨[], rfl, exprList_none closes⟩, fun closes => ⟨[], rfl, arguments_none closes⟩⟩

theorem readsList_list {as bs : List Lexeme} {p : Nat} {e : Expr} {es : List Expr} (spelled : Spelled (.expr p e) as)
    (others : Spelled (.more es) bs) (first : ReadsExpr c as p e) (more : ReadsMore c bs es) :
    ReadsList c (as ++ bs) (e :: es) := by
  intro depth s t ts z rest deep shown
  obtain ⟨us, vs, rfl, shownFirst, shownMore⟩ := shown.append
  simp only [List.length_append] at deep
  rw [List.append_assoc]
  -- the first token of an element closes no list
  have opens : ∃ w ws, us = w :: ws ∧ w.kind ≠ .rbracket ∧ w.kind ≠ .rparen := by
    obtain ⟨a, _, rfl, starts⟩ := spelled.first
    obtain ⟨w, ws, rfl, face, -⟩ := shownFirst.cons
    rw [← Token.kind_of_face face] at starts
    refine ⟨w, ws, rfl, ?_, ?_⟩ <;> intro h <;> rw [h] at starts <;> exact absurd starts (by decide)
  obtain ⟨w, ws, shapeFirst, noBracket, noParen⟩ := opens
  have length : us.length = as.length := shownFirst.length
  constructor
  · intro closes
    obtain ⟨r, xs, shape, low, -⟩ := follows_element others shownMore (.inl closes) rest
    obtain ⟨e', t', same, goes⟩ := first.enclosed s xs spelled.level_bounds.1 (by omega : as.length < depth) low
      shownFirst
    have fuel : bs.length < (t' :: (vs ++ z :: rest)).length + 1 := by
      rw [← shownMore.length]
      simp only [List.length_cons, List.length_append]
      omega
    obtain ⟨es', sameMore, goesMore⟩ := (more depth _ [e'] s t' vs z rest (by omega) fuel shownMore).1 closes
    refine ⟨e' :: es', by simp only [Expr.bareAll, same, sameMore], ?_⟩
    rw [shape] at goesMore ⊢
    rw [shapeFirst, List.cons_append] at goes ⊢
    refine (exprList_some noBracket).trans ?_
    refine goes.andThen ?_
    exact goes_tokensLeft.andThen goesMore
  · intro closes
    obtain ⟨r, xs, shape, follows⟩ := follows_element others shownMore (.inr closes) rest
    obtain ⟨e', t', same, goes⟩ := goes_argument spelled first ((ws ++ r :: xs).length + 2) [] s t xs
      (by omega : as.length < depth) shownFirst follows
    have fuel : bs.length < (ws ++ r :: xs).length + 2 := by
      rw [← shape, ← shownMore.length]
      simp only [List.length_append]
      omega
    obtain ⟨es', sameMore, goesMore⟩ := (more depth _ [e'] s t' vs z rest (by omega) fuel shownMore).2 closes
    refine ⟨e' :: es', by simp only [Expr.bareAll, same, sameMore], ?_⟩
    rw [shape] at goesMore ⊢
    rw [shapeFirst, List.cons_append] at goes ⊢
    refine (arguments_some noParen).trans ?_
    exact goes.trans goesMore

theorem readsExpr_array (m : Mark) {as : List Lexeme} {es : List Expr} (h : ReadsList c as es) :
    ReadsExpr c (.lbracket :: (as ++ [.rbracket])) operandLevel (.array m es) := by
  intro depth bound s ts r rest deep tight ends shown
  obtain ⟨l, us, z, rfl, faceL, inside, faceZ⟩ := shown.enclosed
  simp only [List.length_cons, List.length_append] at deep
  obtain ⟨es', same, goes⟩ := (h depth s l us z (r :: rest) (by omega) inside).1 (Token.kind_of_face faceZ)
  refine ⟨_, .array (markOf l) es', z, ?_, by simp only [Expr.bare, same], expression_of_operand bound ?_⟩
  case refine_2 =>
    rw [List.cons_append, List.append_assoc]
    exact (operand_array (Token.kind_of_face faceL)).trans (goes.bind _)
  simp only [List.length_cons]
  omega

/-! ## Calls -/

/-- A call is read up to the parenthesis that closes its arguments. -/
theorem goes_call {as : List Lexeme} {es : List Expr} {f : Text} {m : Mark} {depth : Nat} {us : List Token}
    {l z : Token} (h : ReadsList c as es) (undotted : f.contains "." = false) (s : ParseState) (rest : List Token)
    (deep : as.length < depth) (shown : Shows as us) (closes : z.kind = .rparen) :
    ∃ es', Expr.bareAll es' = Expr.bareAll es ∧ Goes (call c (read c depth) (.name m f))
      (s.on (l :: (us ++ z :: rest))) (pure (.call (markOf l) f es' [] false "")) (s.on (z :: rest)) := by
  obtain ⟨es', same, goes⟩ := (h depth s l us z rest deep shown).2 closes
  exact ⟨es', same, (call_name undotted).trans (goes.bind _)⟩

/-- What looks like a name without its marks is one. -/
theorem bare_name {e : Expr} {m : Mark} {f : Text} (h : e.bare = (Expr.name m f).bare) : ∃ m', e = .name m' f := by
  cases e
  case name m' v =>
    simp only [Expr.bare, Expr.name.injEq] at h
    exact ⟨m', h.2 ▸ rfl⟩
  all_goals exact absurd h (by simp [Expr.bare])

theorem readsExpr_call (m m' : Mark) {f : Text} {as bs : List Lexeme} {es : List Expr}
    (function : ReadsExpr c as operandLevel (.name m' f)) (undotted : f.contains "." = false) (args : ReadsList c bs es) :
    ReadsExpr c (as ++ .lparen :: (bs ++ [.rparen])) operandLevel (.call m f es [] false "") := by
  intro depth bound s ts u rest deep tight ends shown
  obtain ⟨us, vs, rfl, shownFunction, shown⟩ := shown.append
  obtain ⟨w, vs, z, rfl, face, shownArgs, faceZ⟩ := shown.enclosed
  simp only [List.length_append, List.length_cons] at deep
  have opens : w.kind = .lparen := Token.kind_of_face face
  have takes : bound < operandLevel := tight.resolve_left (by decide)
  obtain ⟨n, e', t, fuel, same, goes⟩ := function depth bound s us w (vs ++ z :: u :: rest) (by omega) tight
    (.inl rfl) shownFunction
  obtain ⟨m'', rfl⟩ := bare_name same
  obtain ⟨es', sameArgs, goesArgs⟩ := goes_call args undotted s (u :: rest) (by omega : bs.length < depth) shownArgs
    (Token.kind_of_face faceZ)
  obtain ⟨n, rfl⟩ := Nat.exists_eq_add_one_of_ne_zero (Nat.ne_zero_of_lt fuel)
  simp only [List.length_append, List.length_cons] at fuel
  refine ⟨n, .call (markOf w) f es' [] false "", z, by omega, by simp only [Expr.bare, sameArgs], ?_⟩
  have shape : us ++ w :: (vs ++ [z]) ++ u :: rest = us ++ w :: (vs ++ z :: u :: rest) := by simp
  rw [shape]
  refine goes.trans ?_
  refine (continuations_take (by rw [opens]; exact takes) (by rw [opens]; decide)).trans ?_
  refine Goes.bind ?_ _
  exact (continuation_call opens).trans goesArgs

theorem readsExpr_markedCall (m : Mark) {w : List UInt8} {as : List Lexeme} {es : List Expr}
    (kind : Token.Kind.ofWord (Text.lowerAscii ⟨w⟩) = .ident) (undotted : (Text.lowerAscii ⟨w⟩).contains "." = false)
    (args : ReadsList c as es) : ReadsExpr c (.hash :: .word w :: .lparen :: (as ++ [.rparen])) operandLevel
      (.call m (Text.lowerAscii ⟨w⟩) es [] false "") := by
  intro depth bound s ts r rest deep tight ends shown
  obtain ⟨h, us, rfl, faceH, shown⟩ := shown.cons
  obtain ⟨f, us, rfl, faceF, shown⟩ := shown.cons
  obtain ⟨l, us, z, rfl, faceL, inside, faceZ⟩ := shown.enclosed
  simp only [List.length_cons, List.length_append] at deep
  have isName : f.kind = .ident := (Token.kind_of_face faceF).trans kind
  obtain ⟨es', same, goes⟩ := goes_call args undotted s (r :: rest) (by omega : as.length < depth) inside
    (Token.kind_of_face faceZ)
  refine ⟨_, .call (markOf l) (Text.lowerAscii ⟨w⟩) es' [] false "", z, ?_, by simp only [Expr.bare, same],
    expression_of_operand bound ?_⟩
  case refine_2 =>
    have shape : h :: f :: l :: (us ++ [z]) ++ r :: rest = h :: f :: l :: (us ++ z :: r :: rest) := by simp
    rw [shape]
    refine (operand_hash (Token.kind_of_face faceH) isName (Token.kind_of_face faceL)).trans ?_
    rw [Token.literal_of_face faceF]
    exact goes
  simp only [List.length_cons]
  omega

end Parser

/-! ## Every spelling -/

/-- What is read of lexemes that spell something. -/
def Phrase.Read (c : Catalog) (as : List Lexeme) : Phrase → Prop
  | .expr p e => Parser.ReadsExpr c as p e
  | .list es => Parser.ReadsList c as es
  | .more es => Parser.ReadsMore c as es

/-- Lexemes are read as what they spell. -/
theorem Spelled.reads (c : Catalog) {phrase : Phrase} {as : List Lexeme} (h : Spelled phrase as)
    (formed : ∀ a ∈ as, a.Formed) : phrase.Read c as := by
  induction h with
  | @name m w word kind =>
    have undotted := Lexeme.undotted (formed (.word w) List.mem_cons_self)
    rw [word] at undotted
    refine Parser.readsExpr_leaf fun s t ts rec face => ?_
    have literal : t.literal = m.literal := (Token.literal_of_face face).trans word
    have isName : t.kind = .ident := (Token.kind_of_face face).trans (by simp only [Lexeme.kind, word, kind])
    refine ⟨_, ?_, Parser.operand_name isName (literal ▸ undotted)⟩
    simp only [Expr.bare, Parser.markOf, literal]
  | int m small =>
    refine Parser.readsExpr_leaf fun s t ts rec face => ?_
    have literal : t.literal = m.literal := Token.literal_of_face face
    rw [← literal] at small
    refine ⟨_, ?_, Parser.operand_int ((Token.kind_of_face face).trans ?_) small⟩
    · simp only [Expr.bare, Parser.markOf, literal]
    · exact kind_digits_int (literal ▸ small)
  | long m suffix small =>
    refine Parser.readsExpr_leaf fun s t ts rec face => ?_
    have literal : t.literal = m.literal := Token.literal_of_face face
    rw [← literal] at small
    refine ⟨_, ?_, Parser.operand_long (Token.kind_of_face face) small⟩
    simp only [Expr.bare, Parser.markOf, literal]
  | longDigits m small large =>
    refine Parser.readsExpr_leaf fun s t ts rec face => ?_
    have literal : t.literal = m.literal := Token.literal_of_face face
    have kind := (Token.kind_of_face face).trans (kind_digits_long small large)
    rw [← literal] at small
    refine ⟨_, ?_, Parser.operand_long kind small⟩
    simp only [Expr.bare, Parser.markOf, literal]
  | bool m b word value =>
    refine Parser.readsExpr_leaf fun s t ts rec face => ?_
    have literal : t.literal = m.literal := (Token.literal_of_face face).trans word
    refine ⟨_, ?_, Parser.operand_bool ((Token.kind_of_face face).trans (kind_bool (word.trans value)))⟩
    simp only [Expr.bare, Parser.markOf, literal]
  | null m word value =>
    refine Parser.readsExpr_leaf fun s t ts rec face => ?_
    have literal : t.literal = m.literal := (Token.literal_of_face face).trans word
    refine ⟨_, ?_, Parser.operand_null ((Token.kind_of_face face).trans (kind_null (word.trans value)))⟩
    simp only [Expr.bare, Parser.markOf, literal]
  | paren inner ih =>
    rw [List.forall_mem_cons, List.forall_mem_append] at formed
    exact Parser.readsExpr_paren (ih formed.2.1) inner.level_bounds.1
  | unary m op operand tight ih =>
    rw [List.forall_mem_cons] at formed
    exact Parser.readsExpr_unary m op (ih formed.2) tight
  | binary m op left right spelled tightLeft tightRight ihLeft ihRight =>
    rw [List.forall_mem_append, List.forall_mem_cons] at formed
    exact Parser.readsExpr_binary m (ihLeft formed.1) (ihRight formed.2.2) spelled tightLeft tightRight
      left.level_bounds.2
  | index m container key ihContainer ihKey =>
    rw [List.forall_mem_append, List.forall_mem_cons, List.forall_mem_append] at formed
    exact Parser.readsExpr_index m (ihContainer formed.1) (ihKey formed.2.2.1) key.level_bounds.1
  | array m elements ih =>
    rw [List.forall_mem_cons, List.forall_mem_append] at formed
    exact Parser.readsExpr_array m (ih formed.2.1)
  | call m m' function args ihFunction ihArgs =>
    rw [List.forall_mem_append, List.forall_mem_cons, List.forall_mem_append] at formed
    exact Parser.readsExpr_call m m' (ihFunction formed.1) (function.undotted formed.1) (ihArgs formed.2.2.1)
  | markedCall m kind args ih =>
    rw [List.forall_mem_cons, List.forall_mem_cons, List.forall_mem_cons, List.forall_mem_append] at formed
    exact Parser.readsExpr_markedCall m kind (Lexeme.undotted formed.2.1) (ih formed.2.2.2.1)
  | empty => exact Parser.readsList_empty
  | list first rest ihFirst ihRest =>
    rw [List.forall_mem_append] at formed
    exact Parser.readsList_list first rest (ihFirst formed.1) (ihRest formed.2)
  | last => exact Parser.readsMore_last
  | more first rest ihFirst ihRest =>
    rw [List.forall_mem_cons, List.forall_mem_append] at formed
    exact Parser.readsMore_more first rest (ihFirst formed.2.1) (ihRest formed.2.2)

end ScriptEngine
