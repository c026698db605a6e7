import MathTemplate.Plot
import MathTemplate.Proofs.Reading.Outlines
import MathTemplate.Proofs.Reading.Results

/-!
# What is accepted as the text of an image

The text that stands for the image of a plot must be a string.  The check looks at the first
and the last character of what the parameter `alt` is given, so that it takes an expression for
a string if it begins with one and ends with one, as `"a"+"b"` does.

`alt_rejected_iff` says which results are rejected: those whose first or last token is no
string.

A string is written with backslashes in front of its quotes and backslashes, and read by
restoring first the quotes and then the backslashes.  Each quote is written behind an odd number
of backslashes, so that nothing else is taken for one, and the text of an image is the string it
is given as (`alt_of_string`).
-/

namespace MathTemplate.Plot

open MathTemplate.Algebra (Expr IsResult Outlines Token)
open Text (Balanced)

/-! ### Quotes at both ends -/

/-- A balanced text stands in quotes if it begins and ends with one. -/
theorem unquoted?_isSome_iff {s : String} (h : Balanced true s.toList) :
  (unquoted? s).isSome = true ↔ s.toList.head? = some '"' ∧ s.toList.getLast? = some '"'
  := by
  unfold unquoted?
  split
  · rename_i rest hs
    rw [hs]
    split
    · rename_i inner hrest
      have hlast : rest = inner.reverse ++ ['"'] := by
        rw [← List.reverse_reverse rest, hrest, List.reverse_cons]
      rw [hlast, ← List.cons_append, List.getLast?_concat]
      exact ⟨fun _ => ⟨rfl, rfl⟩, fun _ => rfl⟩
    · rename_i hrest
      constructor
      · rintro ⟨⟩
      · rintro ⟨-, hlast⟩
        rcases List.eq_nil_or_concat rest with rfl | ⟨inner, c, rfl⟩
        · -- A quote alone is not closed.
          rw [hs] at h
          cases h
        · rw [List.concat_eq_append, ← List.cons_append, List.getLast?_concat] at hlast
          obtain rfl : c = '"' := Option.some.inj hlast
          rw [List.concat_eq_append] at hrest
          exact absurd List.reverse_concat (hrest inner.reverse)
  · rename_i hs
    constructor
    · rintro ⟨⟩
    · rintro ⟨hfirst, -⟩
      obtain ⟨rest, hrest⟩ := List.head?_eq_some_iff.mp hfirst
      exact absurd hrest (hs rest)

/-- Whether the first and the last token of an expression are strings. -/
def isQuoted (e : Expr) : Bool :=
  e.written.head?.any Token.isString && e.written.getLast?.any Token.isString

/-- An expression is taken for a string if its first and its last token are strings. -/
theorem unquoted?_input_isSome {e : Expr} (h : e.Everywhere Expr.Spelled) :
  (unquoted? e.input).isSome = isQuoted e
  := by
  have houtlines := Expr.input_outlines h
  have hend : ∀ (c : Option Char) (t : Option Token), c.map (· == '"') = t.map Token.isString →
      (c = some '"' ↔ t.any Token.isString = true) := by
    intro c t heq
    cases c with
    | none =>
      rw [Option.map_none, eq_comm, Option.map_eq_none_iff] at heq
      simp [heq]
    | some c =>
      obtain ⟨token, rfl, hc⟩ := Option.map_eq_some_iff.mp heq.symm
      rw [Option.any_some, hc, beq_iff_eq, Option.some.injEq]
  rw [Bool.eq_iff_iff, unquoted?_isSome_iff houtlines.balanced, isQuoted, Bool.and_eq_true,
    hend _ _ houtlines.first, hend _ _ houtlines.last]

/-! ### Parameters in front of and behind the text -/

variable {p : PlotParameter} {ps : List PlotParameter}

/-- Another parameter than `alt` is looked at without a fault. -/
theorem look_of_name_ne (known : Options) (h : p.name ≠ "alt") :
  ∃ known', look known p = .ok known'
  := by
  rw [look, if_neg h]
  split
  · exact ⟨_, rfl⟩
  · split
    · exact ⟨_, rfl⟩
    · exact ⟨_, rfl⟩

theorem foldlM_look_of_name_ne (known : Options) (h : ∀ p ∈ ps, p.name ≠ "alt") :
  ∃ known', ps.foldlM look known = .ok known'
  := by
  induction ps generalizing known with
  | nil => exact ⟨known, rfl⟩
  | cons p ps ih =>
    obtain ⟨hp, hps⟩ := List.forall_mem_cons.mp h
    obtain ⟨next, hnext⟩ := look_of_name_ne known hp
    rw [List.foldlM_cons, hnext]
    exact ih next hps

/-- A request is rejected for its text exactly if looking at its parameters is. -/
theorem ofRequest_altNotString_iff {r : PlotRequest} :
  ofRequest r = .error .altNotString ↔ r.parameters.foldlM look {} = .error .altNotString
  := by
  rw [ofRequest]
  cases r.parameters.foldlM look {} with
  | error fault =>
    constructor
    · rintro ⟨⟩
      rfl
    · rintro ⟨⟩
      rfl
  | ok known =>
    constructor
    · intro h
      change (if _ then _ else _) = _ at h
      split at h <;> cases h
    · rintro ⟨⟩

/-! ### The text of an image -/

/-- The parameter `alt` is rejected if what it is given is not taken for a string. -/
theorem look_alt (known : Options) {e : Expr} (h : e.Everywhere Expr.Spelled) :
  (isQuoted e = false → look known ⟨"alt", [e.input]⟩ = .error .altNotString) ∧
    (isQuoted e = true → ∃ known', look known ⟨"alt", [e.input]⟩ = .ok known')
  := by
  rw [← unquoted?_input_isSome h, look, if_neg (by simp [isRange]), if_pos rfl, altText]
  dsimp only
  cases unquoted? e.input with
  | none => exact ⟨fun _ => rfl, by rintro ⟨⟩⟩
  | some inner => exact ⟨by rintro ⟨⟩, fun _ => ⟨_, rfl⟩⟩

/-- The parameters behind `alt` are looked at only if it is given a string. -/
theorem foldlM_look_alt (known : Options) (ps : List PlotParameter) {e : Expr}
    (h : e.Everywhere Expr.Spelled) :
  (isQuoted e = false →
      (⟨"alt", [e.input]⟩ :: ps).foldlM look known = .error .altNotString) ∧
    ((∀ p ∈ ps, p.name ≠ "alt") → isQuoted e = true →
      ∃ known', (⟨"alt", [e.input]⟩ :: ps).foldlM look known = .ok known')
  := by
  obtain ⟨hrejected, haccepted⟩ := look_alt known h
  rw [List.foldlM_cons]
  constructor
  · intro hunquoted
    rw [hrejected hunquoted]
    rfl
  · intro hps hquoted
    obtain ⟨next, hnext⟩ := haccepted hquoted
    rw [hnext]
    exact foldlM_look_of_name_ne next hps

/-- A plot with a parameter `[alt,e]` behind other parameters is rejected, because the text of
its image is no string, if `e` does not begin and end with a string, and for no other `e` unless
the text is given again. -/
theorem alt_rejected_iff {first e : Expr} (before after : List Expr)
    (h : IsResult (.call "plot" (first :: (before ++ .list [.sym "alt", e] :: after))))
    (hbefore : ∀ arg ∈ before, arg.plotParameter.name ≠ "alt") :
  ∃ r, (Expr.call "plot" (first :: (before ++ .list [.sym "alt", e] :: after))).plotRequest? =
      some r ∧
    (isQuoted e = false → ofRequest r = .error .altNotString) ∧
    ((∀ arg ∈ after, arg.plotParameter.name ≠ "alt") →
      (ofRequest r = .error .altNotString ↔ isQuoted e = false))
  := by
  have hlist : (Expr.list [.sym "alt", e]).Everywhere Expr.Spelled := by
    apply h.spelled.parts
    simp [Expr.parts]
  have he : e.Everywhere Expr.Spelled := hlist.parts e (by simp [Expr.parts])
  have halt : (Expr.list [.sym "alt", e]).plotParameter = ⟨"alt", [e.input]⟩ := rfl
  obtain ⟨known, hknown⟩ := foldlM_look_of_name_ne {} (List.forall_mem_map.mpr hbefore)
  obtain ⟨hrejected, haccepted⟩ := foldlM_look_alt known (after.map Expr.plotParameter) he
  refine ⟨_, rfl, ?_⟩
  rw [ofRequest_altNotString_iff, List.map_append, List.map_cons, halt, List.foldlM_append, hknown]
  refine ⟨hrejected, fun hafter => ⟨?_, hrejected⟩⟩
  intro hfault
  rw [Bool.eq_false_iff]
  intro hquoted
  obtain ⟨last, hlast⟩ := haccepted (List.forall_mem_map.mpr hafter) hquoted
  change (⟨"alt", [e.input]⟩ :: after.map Expr.plotParameter).foldlM look known = _ at hfault
  rw [hlast] at hfault
  cases hfault

/-- A sum that begins with a string but does not end with one is no text for an image. -/
theorem alt_rejected_iff_sum :
  ∃ r, (Expr.call "plot" [.sym "x", .list [.sym "color", .sym "red"],
      .list [.sym "alt", .add [.str "a", .sym "b"]]]).plotRequest? = some r ∧
    ofRequest r = .error .altNotString
  := by
  have hresult : IsResult (.call "plot" [.sym "x", .list [.sym "color", .sym "red"],
      .list [.sym "alt", .add [.str "a", .sym "b"]]]) := by
    apply IsResult.of_same "plot(x,[color,red],[alt,\"a\"+b])"
    · simp
    · decide +kernel
  obtain ⟨r, hr, hrejected, -⟩ := alt_rejected_iff [.list [.sym "color", .sym "red"]] [] hresult
    (List.forall_mem_singleton.mpr (by decide))
  exact ⟨r, hr, hrejected rfl⟩

/-- A sum of two strings is taken for a string. -/
theorem sum_of_strings_accepted :
  IsResult (.call "plot" [.sym "x", .list [.sym "alt", .add [.str "a", .str "b"]]]) ∧
    ∃ r plot,
      (Expr.call "plot" [.sym "x", .list [.sym "alt", .add [.str "a", .str "b"]]]).plotRequest? =
        some r ∧ ofRequest r = .ok plot ∧ plot.alt = "a\"+\"b"
  := by
  constructor
  · apply IsResult.of_same "plot(x,[alt,\"a\"+\"b\"])"
    · simp
    · decide +kernel
  · exact ⟨_, _, rfl, rfl, by decide +kernel⟩

/-! ### Strings as they are written -/

/-- A character as it is written in a string. -/
def inString (c : Char) : List Char := if c = '\\' ∨ c = '"' then ['\\', c] else [c]

/-- A character as it is written in a string, when the backslash in front of a quote is gone. -/
def doubled (c : Char) : List Char := if c = '\\' then ['\\', '\\'] else [c]

section Replacing

open Text (replacePair)

variable {a b : Char} {replacement : List Char}

theorem replacePair_pair (rest : List Char) :
  replacePair a b replacement (a :: b :: rest) = replacement ++ replacePair a b replacement rest
  := by
  rw [replacePair, if_pos ⟨rfl, rfl⟩]

/-- A character with which no pair begins is kept. -/
theorem replacePair_cons {c : Char} {rest : List Char} (h : ¬ (c = a ∧ rest.head? = some b)) :
  replacePair a b replacement (c :: rest) = c :: replacePair a b replacement rest
  := by
  cases rest with
  | nil => rfl
  | cons d rest =>
    rw [replacePair, if_neg fun hpair => h ⟨hpair.1, congrArg some hpair.2⟩]

theorem head?_flatMap_inString (cs : List Char) :
  (cs.flatMap inString).head? ≠ some '"'
  := by
  cases cs with
  | nil => simp
  | cons c cs =>
    rw [List.flatMap_cons, inString]
    split
    · simp
    · rename_i hc
      rw [not_or] at hc
      simpa using hc.2

/-- The backslashes in front of quotes are taken away, and those in front of backslashes stay. -/
theorem replacePair_quotes (cs : List Char) :
  replacePair '\\' '"' ['"'] (cs.flatMap inString) = cs.flatMap doubled
  := by
  induction cs with
  | nil => rfl
  | cons c cs ih =>
    rw [List.flatMap_cons, List.flatMap_cons, ← ih]
    by_cases hbackslash : c = '\\'
    · rw [hbackslash]
      change replacePair '\\' '"' ['"'] ('\\' :: '\\' :: cs.flatMap inString) = _
      rw [replacePair_cons (by simp), replacePair_cons fun h => head?_flatMap_inString cs h.2]
      rfl
    · by_cases hquote : c = '"'
      · rw [hquote]
        exact replacePair_pair _
      · rw [inString, doubled, if_neg (by simp [hbackslash, hquote]), if_neg hbackslash]
        exact replacePair_cons fun h => hbackslash h.1

theorem replacePair_backslashes (cs : List Char) :
  replacePair '\\' '\\' ['\\'] (cs.flatMap doubled) = cs
  := by
  induction cs with
  | nil => rfl
  | cons c cs ih =>
    rw [List.flatMap_cons, doubled]
    split
    · rename_i hbackslash
      rw [hbackslash]
      exact (replacePair_pair _).trans (congrArg _ ih)
    · rename_i hbackslash
      exact (replacePair_cons fun h => hbackslash h.1).trans (congrArg _ ih)

end Replacing

/-- What stands between two quotes. -/
theorem unquoted?_eq_some {s : String} {inner : List Char}
    (h : s.toList = '"' :: (inner ++ ['"'])) :
  unquoted? s = some inner
  := by
  have hreverse : (inner ++ ['"']).reverse = '"' :: inner.reverse := List.reverse_concat
  rw [unquoted?, h]
  simp only [hreverse, List.reverse_reverse]

/-- A string is read as it was before it was written. -/
theorem altText_quoted (name text : String) :
  altText ⟨name, [Expr.quoted text]⟩ = .ok text
  := by
  have hunquoted : unquoted? (Expr.quoted text) = some (text.toList.flatMap inString) :=
    unquoted?_eq_some (Expr.toList_quoted text)
  rw [altText]
  dsimp only
  rw [hunquoted]
  dsimp only
  rw [unescaped, replacePair_quotes, replacePair_backslashes, String.ofList_toList]

/-- Whether a parameter is a range or an option that is understood, other than `alt`. -/
def IsOther (p : PlotParameter) : Prop :=
  p.name ≠ "alt" ∧ (isRange p = true ∨ p.name ∈ supportedOptions)

/-- Other parameters that are understood change nothing. -/
theorem look_other (known : Options) (h : IsOther p) :
  look known p = .ok known
  := by
  rw [look]
  by_cases hrange : isRange p = true
  · rw [if_pos hrange]
  · have hoption : supportedOptions.contains p.name = true :=
      List.contains_iff_mem.mpr (h.2.resolve_left hrange)
    rw [if_neg hrange, if_neg h.1, if_pos hoption]

theorem foldlM_look_other (known : Options) (h : ∀ p ∈ ps, IsOther p) :
  ps.foldlM look known = .ok known
  := by
  induction ps with
  | nil => rfl
  | cons p ps ih =>
    obtain ⟨hp, hps⟩ := List.forall_mem_cons.mp h
    rw [List.foldlM_cons, look_other known hp]
    exact ih hps

/-- A string is the text of an image. -/
theorem look_string (known : Options) (text : String) :
  look known ⟨"alt", [(Expr.str text).input]⟩ = .ok { known with alt := some text }
  := by
  have htext : altText ⟨"alt", [(Expr.str text).input]⟩ = .ok text := altText_quoted "alt" text
  rw [look, if_neg (by simp [isRange]), if_pos rfl, htext]
  rfl

/-- A plot whose only text is a string, and whose other parameters are ranges or options that are
understood, is accepted, and the string is the text of its image. -/
theorem alt_of_string {r : PlotRequest} {text : String}
    (halt : r.parameters.filter (fun p => p.name == "alt") = [⟨"alt", [(Expr.str text).input]⟩])
    (hothers : ∀ p ∈ r.parameters, p.name ≠ "alt" →
      isRange p = true ∨ p.name ∈ supportedOptions) :
  ofRequest r = .ok ⟨r, text⟩
  := by
  obtain ⟨before, after, hparameters, hbefore, -, hafter⟩ := List.filter_eq_cons_iff.mp halt
  rw [List.filter_eq_nil_iff] at hafter
  have hother : ∀ p ∈ r.parameters, ¬ (p.name == "alt") = true → IsOther p := by
    intro p hp hname
    rw [beq_iff_eq] at hname
    exact ⟨hname, hothers p hp hname⟩
  have hbefore : ∀ p ∈ before, IsOther p :=
    fun p hp => hother p (by simp [hparameters, hp]) (hbefore p hp)
  have hafter : ∀ p ∈ after, IsOther p :=
    fun p hp => hother p (by simp [hparameters, hp]) (hafter p hp)
  have hknown : r.parameters.foldlM look {} = .ok { alt := some text } := by
    rw [hparameters, List.foldlM_append, foldlM_look_other _ hbefore]
    change (⟨"alt", [(Expr.str text).input]⟩ :: after).foldlM look {} = _
    rw [List.foldlM_cons, look_string]
    exact foldlM_look_other _ hafter
  rw [ofRequest, hknown]
  rfl

/-- Backslashes on either side of a quote are read back. -/
theorem alt_of_string_backslashes :
  ofRequest ⟨["x"], [⟨"x", ["-2", "3"]⟩, ⟨"alt", [(Expr.str "\\\\\"\\").input]⟩,
    ⟨"color", ["red"]⟩]⟩ = .ok ⟨⟨["x"], [⟨"x", ["-2", "3"]⟩,
      ⟨"alt", ["\"\\\\\\\\\\\"\\\\\""]⟩, ⟨"color", ["red"]⟩]⟩, "\\\\\"\\"⟩
  := by
  have halt : (Expr.str "\\\\\"\\").input = "\"\\\\\\\\\\\"\\\\\"" := by decide +kernel
  rw [← halt]
  apply alt_of_string
  · rfl
  · intro p hp hname
    simp only [List.mem_cons, List.not_mem_nil, or_false] at hp
    rcases hp with rfl | rfl | rfl
    · exact .inl (by decide)
    · exact absurd rfl hname
    · exact .inr (by decide)

end MathTemplate.Plot
