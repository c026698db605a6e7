import MathTemplate.Algebra.Calculator
import MathTemplate.Proofs.Check.Indices
import MathTemplate.Proofs.Reading.Bound
import MathTemplate.Session

/-!
# The targets of element assignments

An element assignment is found twice.  A session looks at the characters of a text to tell which
name the text binds (`elementTarget?`), and the evaluator reads its tokens.  They agree on the name,
but not on where the indices end, so that the session misses an element assignment with a list in
its indices and binds the result to a generated key.  `element_assignment_targets` says on which
texts they agree.
-/

namespace MathTemplate.Check

open MathTemplate.Algebra (Token Expr Statement tokens tokenize scanToken scanNumber beginsName
  continuesName parseStatement)
open MathTemplate.Algebra.Parser (expression operand operators sequence statement elementAssignment
  finish_iff operators_stop)
open Text (isBlank trimStart)

/-! ### The name in front of the indices -/

/-- Whether a name may be the target of an assignment. -/
def IsTarget (name : String) : Prop :=
  ∃ c cs, name.toList = c :: cs ∧ beginsTarget c = true ∧ cs.all continuesIdentifier = true

theorem IsTarget.isName {name : String} (h : IsTarget name) :
  Algebra.IsName name
  := by
  obtain ⟨c, cs, hname, hbegins, hcontinues⟩ := h
  refine ⟨c, cs, hname, ?_, ?_⟩
  · apply beginsName_of_beginsIdentifier
    simp only [beginsTarget, Bool.or_eq_true] at hbegins
    simp only [beginsIdentifier, Bool.or_eq_true]
    rcases hbegins with h | h
    · exact .inl (.inl h)
    · exact .inr h
  · rw [List.all_eq_true] at hcontinues ⊢
    exact fun d hd => continuesName_of_continuesIdentifier (hcontinues d hd)

/-- An element assignment is found behind a name and the blanks that follow it. -/
theorem elementTarget?_eq_some_iff {s name : String} :
  elementTarget? s = some name ↔
    ∃ inner, leadingName? s.toList = some (name.toList, '[' :: inner) ∧ closesIndices inner = true
  := by
  unfold elementTarget?
  constructor
  · intro h
    obtain ⟨⟨cs, rest⟩, hname, h⟩ := Option.bind_eq_some_iff.mp h
    obtain ⟨behind, hindices, h⟩ := Option.bind_eq_some_iff.mp h
    obtain ⟨value, hcolon, h⟩ := Option.bind_eq_some_iff.mp h
    cases h
    have hrest : ∃ inner, rest = '[' :: inner := by
      unfold behindIndices? at hindices
      split at hindices
      · exact ⟨_, rfl⟩
      · cases hindices
    obtain ⟨inner, rfl⟩ := hrest
    refine ⟨inner, by rw [hname, String.toList_ofList], ?_⟩
    rw [closesIndices, hindices, Option.bind_some, hcolon]
    rfl
  · rintro ⟨inner, hname, hcloses⟩
    obtain ⟨value, hvalue⟩ := Option.isSome_iff_exists.mp hcloses
    obtain ⟨behind, hindices, hcolon⟩ := Option.bind_eq_some_iff.mp hvalue
    rw [hname, Option.bind_eq_bind, Option.bind_some]
    dsimp only
    rw [hindices, Option.bind_eq_bind, Option.bind_some, hcolon]
    exact congrArg some String.ofList_toList

theorem breaks_blanks {blanks : List Char} (h : ∀ c ∈ blanks, isBlank c = true) {d : Char}
    (hd : continuesName d = false ∧ d ≠ '.') (rest : List Char) :
  Algebra.Breaks (blanks ++ d :: rest)
  := by
  cases blanks with
  | nil =>
    rintro c ⟨rfl⟩
    exact hd
  | cons b blanks =>
    rintro c ⟨rfl⟩
    obtain ⟨hcontinues, -, hother⟩ :=
      Algebra.continues_of_isBlank (h b List.mem_cons_self)
    refine ⟨hcontinues, ?_⟩
    rintro rfl
    exact hother (by decide)

/-- The name the check finds is the first token if the evaluator ends the name there as well. -/
theorem tokens_of_leadingName {cs rest : List Char} {name : String} {d : Char}
    (h : leadingName? cs = some (name.toList, d :: rest))
    (hd : continuesName d = false ∧ d ≠ '.') :
  IsTarget name ∧ tokens cs = (tokens (d :: rest)).map (.ident name :: ·)
  := by
  unfold leadingName? at h
  split at h
  · cases h
  · rename_i c more htrim
    split at h
    · rename_i hbegins
      simp only [Option.some.injEq, Prod.mk.injEq] at h
      obtain ⟨hname, hrest⟩ := h
      have htarget : IsTarget name :=
        ⟨c, more.takeWhile continuesIdentifier, hname.symm, hbegins, List.all_takeWhile⟩
      have hblanks : ∀ d ∈ (more.dropWhile continuesIdentifier).takeWhile isBlank,
          isBlank d = true := fun d hd => List.mem_takeWhile_imp hd
      have hsplit : trimStart cs =
          name.toList ++ ((more.dropWhile continuesIdentifier).takeWhile isBlank ++ d :: rest) := by
        rw [htrim, ← hname, ← hrest, trimStart, List.takeWhile_append_dropWhile, List.cons_append,
          List.takeWhile_append_dropWhile]
      refine ⟨htarget, ?_⟩
      rw [← tokens_trimStart, hsplit,
        Algebra.tokens_name htarget.isName (breaks_blanks hblanks hd rest),
        Algebra.tokens_of_blanks hblanks]
    · cases h

/-- Behind a name the check finds, a bracket or a colon is the second token. -/
theorem tokens_of_leadingName_symbol {cs rest : List Char} {name : String} {d : Char}
    {s : Algebra.Symbol} (h : leadingName? cs = some (name.toList, d :: rest))
    (hd : continuesName d = false ∧ d ≠ '.') (hs : s.text.toList = [d]) (hends : s.Ends rest)
    {ts : List Token} (htokens : tokens cs = .ok ts) :
  ∃ more, ts = .ident name :: .symbol s :: more ∧ tokens rest = .ok more ∧ IsTarget name
  := by
  obtain ⟨htarget, heq⟩ := tokens_of_leadingName h hd
  have hsymbol := Algebra.tokens_symbol s hends
  rw [hs, List.singleton_append] at hsymbol
  rw [htokens, hsymbol] at heq
  obtain ⟨behind, hbehind, rfl⟩ := Algebra.map_eq_ok.mp heq.symm
  obtain ⟨more, hrest, rfl⟩ := Algebra.map_eq_ok.mp hbehind
  exact ⟨more, rfl, hrest, htarget⟩

/-- A name is scanned with all characters it goes on with. -/
theorem scanToken_ident {c : Char} {rest left : List Char} {name : String}
    (h : scanToken c rest = .ok (.ident name, left)) :
  name.toList = c :: rest.takeWhile continuesName ∧ left = rest.dropWhile continuesName
  := by
  unfold scanToken at h
  split at h
  · exact absurd h Algebra.scanNumber_ne_ident
  · split at h
    · cases h
      exact ⟨String.toList_ofList, rfl⟩
    · split at h
      · split at h
        · cases h
        · cases h
      · split at h
        · cases h
        · cases h

theorem scanToken_openBracket {c : Char} {rest left : List Char}
    (h : scanToken c rest = .ok (.symbol .openBracket, left)) :
  c = '[' ∧ rest = left
  := by
  unfold scanToken at h
  split at h
  · rcases Algebra.isNumber_of_scanNumber h with ⟨n, ⟨⟩⟩ | ⟨r, ⟨⟩⟩
  · split at h
    · cases h
    · split at h
      · split at h
        · cases h
        · cases h
      · split at h
        · rename_i s left' hscan
          cases h
          rcases scanSymbol?_front hscan with hfront | ⟨⟨⟩, -⟩
          cases hfront
          exact ⟨rfl, rfl⟩
        · cases h

/-- A name that may be a target is the name the check finds if it is the first token. -/
theorem leadingName?_of_tokens {cs : List Char} {name : String} {ts : List Token}
    (h : tokens cs = .ok (.ident name :: .symbol .openBracket :: ts)) (hname : IsTarget name) :
  ∃ inner, leadingName? cs = some (name.toList, '[' :: inner) ∧ tokens inner = .ok ts
  := by
  obtain ⟨c, rest, left, htrim, hscan, hleft⟩ := tokens_eq_cons h
  obtain ⟨c', inner, left', htrim', hscan', hinner⟩ := tokens_eq_cons hleft
  obtain ⟨hchars, rfl⟩ := scanToken_ident hscan
  obtain ⟨rfl, rfl⟩ := scanToken_openBracket hscan'
  obtain ⟨first, others, hchars', hbegins, hcontinues⟩ := hname
  rw [hchars, List.cons.injEq] at hchars'
  obtain ⟨rfl, hothers⟩ := hchars'
  -- what a name goes on with here an identifier goes on with, so both end at the same character
  have hend : ∀ d ∈ (rest.dropWhile continuesName).head?, continuesIdentifier d = false := by
    intro d hd
    have hnot := List.head?_dropWhile_not continuesName rest
    rw [hd] at hnot
    rw [Bool.eq_false_iff]
    intro hidentifier
    have hname : continuesName d = true := continuesName_of_continuesIdentifier hidentifier
    exact Bool.false_ne_true (hnot.symm.trans hname)
  have hspan := Algebra.takeWhile_append_of_all (hothers ▸ hcontinues) hend
  rw [List.takeWhile_append_dropWhile] at hspan
  refine ⟨inner, ?_, hinner⟩
  rw [leadingName?, htrim]
  dsimp only
  rw [if_pos hbegins, hspan.1, hspan.2, htrim', hchars]

/-! ### Statements -/

/-- Behind a name no expression goes on with a bracket, unless the name is `not`. -/
theorem eq_not_of_reads {name : String} {ts : List Token} {e : Expr}
    (h : Algebra.Reads (expression 0 (.ident name :: .symbol .openBracket :: ts)) e []) :
  name = "not"
  := by
  obtain ⟨lhs, rest, ⟨hshorter, hoperand⟩, hoperators⟩ := Algebra.expression_inv h
  by_contra hnot
  have hrest : rest = .symbol .openBracket :: ts := by
    rw [operand.eq_def] at hoperand
    dsimp only at hoperand
    split at hoperand
    · cases hoperand
      rfl
    · split at hoperand
      · cases hoperand
        rfl
      · split at hoperand
        · cases hoperand
        · cases hoperand
          rfl
  have hstops : Algebra.Stops 0 (.symbol .openBracket :: ts) :=
    Algebra.stops_of_ofSymbol? (by decide) rfl
  rw [hrest] at hoperators
  cases (hoperators.unique (operators_stop lhs hstops)).2

/-- No expression begins with an equals sign. -/
theorem head?_ne_eq_of_reads {ts left : List Token} {e : Expr}
    (h : Algebra.Reads (expression 0 ts) e left) :
  ts.head? ≠ some (.symbol .eq)
  := by
  intro hhead
  obtain ⟨more, rfl⟩ := List.head?_eq_some_iff.mp hhead
  obtain ⟨lhs, rest, ⟨hshorter, hoperand⟩, hoperators⟩ := Algebra.expression_inv h
  rw [operand.eq_def] at hoperand
  cases hoperand

/-! ### Where the check and the evaluator agree -/

/-- Whether no list is part of an expression, and no string with a closing bracket or a colon. -/
def IsUnbracketed (e : Expr) : Prop :=
  e.Everywhere fun part => (∀ items, part ≠ .list items) ∧
    ∀ text, part = .str text → ']' ∉ text.toList ∧ ':' ∉ text.toList

/-- Whether no string that is part of an expression misleads. -/
def IsCandid (e : Expr) : Prop :=
  e.Everywhere fun part => ∀ text, part = .str text → ¬ Misleads text.toList

theorem isUnbracketed_iff {e : Expr} :
  IsUnbracketed e ↔ e.Everywhere (Expr.Spells IsBare)
  := by
  constructor
  · intro h
    apply h.mono
    rintro part ⟨hlist, hstr⟩
    cases part with
    | list items => exact absurd rfl (hlist items)
    | str text => exact forall_endsIndices_iff.mpr (hstr text rfl)
    | _ => trivial
  · intro h
    apply h.mono
    intro part hpart
    constructor
    · rintro items rfl
      exact hpart rfl
    · rintro text rfl
      exact forall_endsIndices_iff.mp hpart

theorem isCandid_iff {e : Expr} :
  IsCandid e ↔ e.Everywhere (Expr.Spells IsHonest)
  := by
  constructor
  · intro h
    apply h.mono
    intro part hpart
    cases part with
    | str text => exact hpart text rfl
    | _ => trivial
  · intro h
    apply h.mono
    rintro part hpart text rfl
    exact hpart

/-- The tokens of a list of indices and the bracket behind them. -/
theorem spelling_of_sequence {P : Token → Prop} (hP : Algebra.IsTypical P) {ts left : List Token}
    {indices : List Expr} (h : Algebra.Reads (sequence .closeBracket ts) indices left) :
  ∃ inner, ts = inner ++ .symbol .closeBracket :: left ∧ Algebra.Spelling P inner indices
  := by
  obtain ⟨inner, hts, hderives⟩ := Algebra.derives_of_sequence h
  exact ⟨inner, hts, hderives.spelling hP⟩

theorem spelling_of_expression {P : Token → Prop} (hP : Algebra.IsTypical P) {ts : List Token}
    {e : Expr} (h : Algebra.Reads (expression 0 ts) e []) :
  Algebra.Spelling P ts [e]
  := (Algebra.derives_of_expression h).spelling hP

theorem elementTarget?_of_expression {s name : String} {ts : List Token} {e : Expr}
    (htokens : tokenize s = .ok ts) (h : Algebra.Reads (expression 0 ts) e [])
    (hname : elementTarget? s = some name) :
  name = "not" ∧ ¬ IsCandid e
  := by
  obtain ⟨inner, hleading, hcloses⟩ := elementTarget?_eq_some_iff.mp hname
  obtain ⟨more, rfl, hmore, -⟩ := tokens_of_leadingName_symbol (s := .openBracket) hleading
    (by decide +kernel) rfl trivial htokens
  refine ⟨eq_not_of_reads h, fun hcandid => ?_⟩
  have hspelling := spelling_of_expression isHonest_isTypical h
  rcases tokens_of_closesIndices hmore hcloses with
    ⟨front, behind, rfl, -⟩ | ⟨front, text, behind, rfl, -, htext⟩
  · exact hspelling.colon (by simp)
  · apply htext
    apply hspelling.spells.mpr (List.forall_mem_singleton.mpr (isCandid_iff.mp hcandid))
    simp

/-- Tokens the check goes past end at the bracket that closes the indices, or before it. -/
theorem bare_prefix {inner front behind more : List Token} {t : Token}
    (h : inner ++ .symbol .closeBracket :: more = front ++ t :: behind)
    (hfront : ∀ t ∈ front, IsBare t) :
  (front = inner ∧ t = .symbol .closeBracket) ∨
    ∃ others, inner = front ++ t :: others ∧ behind = others ++ .symbol .closeBracket :: more
  := by
  rcases List.append_eq_append_iff.mp h with ⟨extra, rfl, hextra⟩ | ⟨extra, rfl, hextra⟩
  · cases extra with
    | nil =>
      cases hextra
      exact .inl ⟨List.append_nil inner, rfl⟩
    | cons first extra =>
      cases hextra
      exact absurd rfl (hfront (.symbol .closeBracket) (by simp))
  · cases extra with
    | nil =>
      cases hextra
      exact .inl ⟨(List.append_nil front).symm, rfl⟩
    | cons first extra =>
      cases hextra
      exact .inr ⟨extra, rfl, rfl⟩

theorem elementTarget?_of_setElement {s name target : String} {indices : List Expr} {value : Expr}
    (h : parseStatement s = .ok (.setElement name indices value))
    (htarget : elementTarget? s = some target) :
  target = name ∧ IsTarget name ∧
    ((∀ i ∈ indices, IsCandid i) → ∀ i ∈ indices, IsUnbracketed i)
  := by
  obtain ⟨ts, more, htokens, hindices, -⟩ := Algebra.parseStatement_eq_setElement h
  obtain ⟨inner, hleading, hcloses⟩ := elementTarget?_eq_some_iff.mp htarget
  obtain ⟨ts', heq, hts, hname⟩ := tokens_of_leadingName_symbol (s := .openBracket) hleading
    (by decide +kernel) rfl trivial htokens
  cases heq
  refine ⟨rfl, hname, fun hcandid => ?_⟩
  rcases tokens_of_closesIndices hts hcloses with
    ⟨front, behind, hsplit, hfront⟩ | ⟨front, text, behind, hsplit, hfront, htext⟩
  · obtain ⟨used, rfl, hspelling⟩ := spelling_of_sequence isBare_isTypical hindices
    rcases bare_prefix hsplit hfront with ⟨rfl, -⟩ | ⟨others, rfl, hothers⟩
    · exact fun i hi => isUnbracketed_iff.mpr (hspelling.spells.mp hfront i hi)
    · -- the colon would come before the bracket that closes the indices
      cases others with
      | nil => cases hothers
      | cons t others =>
        cases hothers
        exact absurd (by simp) hspelling.colon
  · obtain ⟨used, rfl, hspelling⟩ := spelling_of_sequence isHonest_isTypical hindices
    rcases bare_prefix hsplit hfront with ⟨-, ⟨⟩⟩ | ⟨others, rfl, -⟩
    apply absurd _ htext
    apply hspelling.spells.mpr fun i hi => isCandid_iff.mp (hcandid i hi)
    simp

theorem elementTarget?_of_isUnbracketed {s name : String} {indices : List Expr} {value : Expr}
    (h : parseStatement s = .ok (.setElement name indices value)) (hname : IsTarget name)
    (hindices : ∀ i ∈ indices, IsUnbracketed i) :
  elementTarget? s = some name
  := by
  obtain ⟨ts, more, htokens, hsequence, hvalue⟩ := Algebra.parseStatement_eq_setElement h
  obtain ⟨inner, hleading, hinner⟩ := leadingName?_of_tokens htokens hname
  obtain ⟨used, rfl, hspelling⟩ := spelling_of_sequence isBare_isTypical hsequence
  have hbare := hspelling.spells.mpr fun i hi => isUnbracketed_iff.mp (hindices i hi)
  refine elementTarget?_eq_some_iff.mpr ⟨inner, hleading, ?_⟩
  refine closesIndices_of_tokens hinner (fun t ht => ⟨hbare t ht, ?_⟩) (head?_ne_eq_of_reads hvalue)
  rintro rfl
  exact hspelling.colon ht

/-- No plain assignment is found in an element assignment. -/
theorem plainAssignment?_of_setElement {s name : String} {indices : List Expr} {value : Expr}
    (h : parseStatement s = .ok (.setElement name indices value)) :
  plainAssignment? s = none
  := by
  obtain ⟨ts, more, htokens, -, -⟩ := Algebra.parseStatement_eq_setElement h
  cases hplain : plainAssignment? s with
  | none => rfl
  | some found =>
    unfold plainAssignment? at hplain
    obtain ⟨⟨cs, rest⟩, hleading, hplain⟩ := Option.bind_eq_some_iff.mp hplain
    obtain ⟨behind, hcolon, -⟩ := Option.bind_eq_some_iff.mp hplain
    obtain ⟨rest', rfl, -⟩ := behindColon?_isSome.mp (Option.isSome_of_eq_some hcolon)
    have hleading' : leadingName? s.toList = some ((String.ofList cs).toList, ':' :: rest') := by
      rw [hleading, String.toList_ofList]
    obtain ⟨ts', heq, -, -⟩ := tokens_of_leadingName_symbol (s := .colon) hleading'
      (by decide +kernel) rfl trivial htokens
    cases heq

/-- An element assignment is bound to the name the check finds, or to a generated one. -/
theorem addAssignment_key {s name : String} {indices : List Expr} {value : Expr}
    (h : parseStatement s = .ok (.setElement name indices value)) (evaluator : Evaluator)
    (session : Session) :
  (session.addAssignment evaluator s).2.key = (elementTarget? s).getD (session.keyOr none)
  := by
  unfold Session.addAssignment
  cases htarget : elementTarget? s with
  | some target => rfl
  | none =>
    rw [splitAssignment, htarget, plainAssignment?_of_setElement h]
    rfl

/-- The name whose value a statement replaces an element of. -/
def target? : Statement → Option String
  | .expr _ => none
  | .setElement name _ _ => some name

/-- Whether the check can tell from its characters what a statement is. -/
def IsRecognizable : Statement → Prop
  | .expr _ => True
  | .setElement name indices _ => IsTarget name ∧ ∀ i ∈ indices, IsUnbracketed i

/-- Whether no string misleads in an expression, or in the indices of an element assignment. -/
def IsCandidStatement : Statement → Prop
  | .expr e => IsCandid e
  | .setElement _ indices _ => ∀ i ∈ indices, IsCandid i

/-- A text the evaluator reads is never bound to the name of an element assignment other than the
one the evaluator finds, except that a literal may make a negation look like an assignment to
`not`.  Without such literals the check and the evaluator agree exactly if the target is a name of
the check and the indices hold no list, and no string with a closing bracket or a colon.  What the
check does not find is bound to a generated key. -/
theorem element_assignment_targets {s : String} {statement : Statement}
    (h : parseStatement s = .ok statement) :
  (∀ name, elementTarget? s = some name → target? statement = some name ∨
      (name = "not" ∧ target? statement = none ∧ ¬ IsCandidStatement statement)) ∧
    (IsCandidStatement statement →
      (elementTarget? s = target? statement ↔ IsRecognizable statement)) ∧
    (∀ name, target? statement = some name → ∀ (evaluator : Evaluator) (session : Session),
      (session.addAssignment evaluator s).2.key = (elementTarget? s).getD (session.keyOr none))
  := by
  cases statement with
  | expr e =>
    obtain ⟨ts, htokens, hwhole⟩ := Algebra.bind_eq_ok.mp (Algebra.parseStatement_eq_expr_iff.mp h)
    have hreads := Algebra.Parser.whole_iff.mp hwhole
    refine ⟨fun name hname => ?_, fun hcandid => ?_, ?_⟩
    · obtain ⟨hnot, hmisled⟩ := elementTarget?_of_expression htokens hreads hname
      exact .inr ⟨hnot, rfl, hmisled⟩
    · refine iff_of_true ?_ trivial
      rw [target?, Option.eq_none_iff_forall_not_mem]
      intro name hname
      exact (elementTarget?_of_expression htokens hreads hname).2 hcandid
    · rintro name ⟨⟩
  | setElement name indices value =>
    refine ⟨fun target htarget => ?_, fun hcandid => ?_, fun _ _ => addAssignment_key h⟩
    · obtain ⟨rfl, -, -⟩ := elementTarget?_of_setElement h htarget
      exact .inl rfl
    · constructor
      · intro htarget
        obtain ⟨-, hname, hindices⟩ := elementTarget?_of_setElement h htarget
        exact ⟨hname, hindices hcandid⟩
      · rintro ⟨hname, hindices⟩
        exact elementTarget?_of_isUnbracketed h hname hindices

/-- The text of a statement is one that replaces an element of the value of a name. -/
theorem exists_of_target? {s name : String}
    (h : (parseStatement s).toOption.bind target? = some name) :
  ∃ statement, parseStatement s = .ok statement ∧ target? statement = some name
  := by
  cases hstatement : parseStatement s with
  | error fault =>
    rw [hstatement] at h
    cases h
  | ok statement =>
    rw [hstatement] at h
    exact ⟨statement, rfl, h⟩

/-- An entry of a matrix is replaced, and the matrix bound to its name. -/
theorem element_assignment_targets_entry :
  ∃ statement, parseStatement "A[1,2]:3" = .ok statement ∧
    ∀ (evaluator : Evaluator) (session : Session),
      (session.addAssignment evaluator "A[1,2]:3").2.key = "A"
  := by
  obtain ⟨statement, hstatement, htarget⟩ :
      ∃ statement, parseStatement "A[1,2]:3" = .ok statement ∧ target? statement = some "A" :=
    exists_of_target? (by decide +kernel)
  have hfound : elementTarget? "A[1,2]:3" = some "A" := by decide +kernel
  refine ⟨statement, hstatement, fun evaluator session => ?_⟩
  rw [(element_assignment_targets hstatement).2.2 "A" htarget evaluator session, hfound]
  rfl

/-- A list in an index hides an element assignment from the check: the new list is bound to a
generated key, and the name keeps the old one. -/
theorem list_in_index_not_found :
  let session := (({} : Session).addAssignment Algebra.calculator "L:[1,2,3]").1
  let appended := session.addAssignment Algebra.calculator "L[length([1])]:9"
  (∃ statement, parseStatement "L[length([1])]:9" = .ok statement ∧ target? statement = some "L") ∧
    elementTarget? "L[length([1])]:9" = none ∧ appended.2.key = "autogen0" ∧
    appended.2.result.toOption.map (·.value.text) = some "[9,2,3]" ∧
    (appended.1.valueOf? "L").map Value.text = some "[1,2,3]"
  := by
  refine ⟨exists_of_target? (by decide +kernel), ?_⟩
  decide +kernel

end MathTemplate.Check
