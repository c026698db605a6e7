import MathTemplate.Proofs.Reading.Grammar
import MathTemplate.Proofs.Simplification.Exactness

/-!
# What is read of a text has names

What the lexer takes for a name is a name, so that the tokens of a text fit every tolerant
condition that its doubles meet (`tokenize_fits`).  What is derived from tokens that fit the
condition meets it everywhere (`Derives.everywhere`), and so does what `parse` returns
(`parse_everywhere`).

A text without decimals has no doubles among its tokens, so that what is read of it is without
doubles and has names (`parse_exact`).
-/

namespace MathTemplate.Algebra

open MathTemplate.Algebra.Parser
open MathTemplate.Algebra.Expr (Everywhere Exact forall_mem_pair)

variable {P : Expr → Prop}

/-! ### Tokens -/

/-- Whether a token is a double that meets a condition if it is a double, and a name if it is
written like one. -/
def Token.Fits (P : Expr → Prop) : Token → Prop
  | .real r => P (.real r)
  | .ident name => IsName name
  | _ => True

/-- Whether a token is a double. -/
def Token.isReal : Token → Bool
  | .real _ => true
  | _ => false

/-- Whether there is no double among the tokens of a text. -/
def WithoutDecimals (s : String) : Prop :=
  ∀ ts, tokenize s = .ok ts → ∀ t ∈ ts, t.isReal = false

instance (s : String) : Decidable (WithoutDecimals s) :=
  match h : tokenize s with
  | .error _ => isTrue (by
    intro ts hts
    rw [h] at hts
    cases hts)
  | .ok ts => decidable_of_iff (∀ t ∈ ts, t.isReal = false) (by
    constructor
    · rintro hall ts' hts
      rw [h] at hts
      cases hts
      exact hall
    · intro hs
      apply hs ts h)

/-- What is scanned as a number is one. -/
theorem isNumber_of_scanNumber {whole rest left : List Char} {t : Token}
    (h : scanNumber whole rest = .ok (t, left)) :
  (∃ n, t = .int n) ∨ ∃ r, t = .real r
  := by
  unfold scanNumber at h
  split at h
  · cases h
    exact .inr ⟨_, rfl⟩
  · split at h
    · cases h
      exact .inl ⟨_, rfl⟩
    · cases h

theorem scanNumber_ne_ident {whole rest left : List Char} {name : String} :
  scanNumber whole rest ≠ .ok (.ident name, left)
  := by
  intro h
  rcases isNumber_of_scanNumber h with ⟨n, ⟨⟩⟩ | ⟨r, ⟨⟩⟩

/-- What is scanned as a name is one. -/
theorem isName_of_scanToken {c : Char} {rest left : List Char} {name : String}
    (h : scanToken c rest = .ok (.ident name, left)) :
  IsName name
  := by
  unfold scanToken at h
  split at h
  · apply absurd h scanNumber_ne_ident
  · split at h
    · rename_i hbegins
      cases h
      refine ⟨c, rest.takeWhile continuesName, String.toList_ofList, hbegins, ?_⟩
      apply List.all_takeWhile
    · split at h
      · split at h
        · cases h
        · cases h
      · split at h
        · cases h
        · cases h

theorem isName_of_tokens {cs : List Char} {ts : List Token} (h : tokens cs = .ok ts) :
  ∀ name, .ident name ∈ ts → IsName name
  := by
  fun_induction tokens cs generalizing ts with
  | case1 =>
    cases h
    rintro name ⟨⟩
  | case2 c rest hblank ih => exact ih h
  | case3 => cases h
  | case4 => cases h
  | case5 c rest hblank t left hscan ts' htokens ih =>
    cases h
    intro name hname
    rcases List.mem_cons.mp hname with rfl | hname
    · apply isName_of_scanToken hscan
    · exact ih htokens name hname

theorem tokenize_fits {s : String} {ts : List Token} (h : tokenize s = .ok ts)
    (hreal : ∀ r, .real r ∈ ts → P (.real r)) :
  ∀ t ∈ ts, t.Fits P
  := by
  intro t ht
  cases t with
  | real r => apply hreal r ht
  | ident name => apply isName_of_tokens h name ht
  | _ => trivial

/-! ### What is read -/

theorem join_everywhere [Tolerant P] (op : Operator) {lhs rhs : Expr} (hlhs : lhs.Everywhere P)
    (hrhs : rhs.Everywhere P) :
  (op.join lhs rhs).Everywhere P
  := by
  have hpair := forall_mem_pair.mpr ⟨hlhs, hrhs⟩
  have hminus := forall_mem_pair.mpr ⟨hlhs, everywhere_neg hrhs⟩
  cases op with
  | minus => exact everywhere_of_formed (Nat.le_refl 2) hminus
  | or => exact everywhere_of_formed (Nat.le_refl 2) hpair
  | and => exact everywhere_of_formed (Nat.le_refl 2) hpair
  | plus => exact everywhere_of_formed (Nat.le_refl 2) hpair
  | times => exact everywhere_of_formed (Nat.le_refl 2) hpair
  | rel r => exact everywhere_of_formed trivial hpair
  | dividedBy => exact everywhere_of_formed trivial hpair
  | power => exact everywhere_of_formed trivial hpair

/-- What tokens derive meets a condition everywhere if the tokens fit it. -/
theorem Derives.everywhere [Tolerant P] {ts : List Token} {es : List Expr} (h : Derives ts es)
    (hts : ∀ t ∈ ts, t.Fits P) :
  ∀ e ∈ es, e.Everywhere P
  := by
  induction h with
  | nil => rintro e ⟨⟩
  | int n => exact List.forall_mem_singleton.mpr (everywhere_int n)
  | real r =>
    have hreal : P (.real r) := hts _ List.mem_cons_self
    exact List.forall_mem_singleton.mpr ⟨hreal, by rintro part ⟨⟩⟩
  | str text =>
    exact List.forall_mem_singleton.mpr (everywhere_of_formed trivial (by rintro part ⟨⟩))
  | bool b => exact List.forall_mem_singleton.mpr (everywhere_bool b)
  | sym hname =>
    exact List.forall_mem_singleton.mpr (everywhere_sym ⟨hts _ List.mem_cons_self, hname⟩)
  | neg _ ih =>
    have hpart := List.forall_mem_singleton.mp (ih (List.forall_mem_cons.mp hts).2)
    exact List.forall_mem_singleton.mpr (everywhere_neg hpart)
  | plus _ ih => exact ih (List.forall_mem_cons.mp hts).2
  | not _ ih =>
    exact List.forall_mem_singleton.mpr
      (everywhere_of_formed trivial (ih (List.forall_mem_cons.mp hts).2))
  | paren _ ih => exact ih (List.forall_mem_append.mp (List.forall_mem_cons.mp hts).2).1
  | list _ ih =>
    have hitems := ih (List.forall_mem_append.mp (List.forall_mem_cons.mp hts).2).1
    exact List.forall_mem_singleton.mpr (everywhere_list hitems)
  | set _ ih =>
    have hitems := ih (List.forall_mem_append.mp (List.forall_mem_cons.mp hts).2).1
    exact List.forall_mem_singleton.mpr (everywhere_of_formed trivial hitems)
  | call hname _ ih =>
    obtain ⟨hfits, hbehind⟩ := List.forall_mem_cons.mp hts
    have hargs := ih (List.forall_mem_append.mp (List.forall_mem_cons.mp hbehind).2).1
    exact List.forall_mem_singleton.mpr (everywhere_of_formed ⟨hfits, hname⟩ hargs)
  | @join t op _ _ _ _ _ _ _ ih ih' =>
    obtain ⟨hleft, hright⟩ := List.forall_mem_append.mp hts
    have hlhs := List.forall_mem_singleton.mp (ih hleft)
    have hrhs := List.forall_mem_singleton.mp (ih' (List.forall_mem_cons.mp hright).2)
    exact List.forall_mem_singleton.mpr (join_everywhere op hlhs hrhs)
  | cons _ _ ih ih' =>
    obtain ⟨hfirst, hothers⟩ := List.forall_mem_append.mp hts
    exact List.forall_mem_cons.mpr ⟨ih hfirst _ List.mem_cons_self,
      ih' (List.forall_mem_cons.mp hothers).2⟩

theorem parse_everywhere [Tolerant P] {s : String} {e : Expr} (h : parse s = .ok e)
    (hreal : ∀ ts, tokenize s = .ok ts → ∀ r, .real r ∈ ts → P (.real r)) :
  e.Everywhere P
  := by
  rw [parse] at h
  obtain ⟨ts, htokens, h⟩ := bind_eq_ok.mp h
  have hderives := derives_of_expression (whole_iff.mp h)
  exact hderives.everywhere (tokenize_fits htokens (hreal ts htokens)) e List.mem_cons_self

/-- What is read of a text without decimals is without doubles and has names. -/
theorem parse_exact {s : String} {e : Expr} (hs : WithoutDecimals s) (h : parse s = .ok e) :
  e.Exact
  := by
  apply parse_everywhere h
  intro ts hts r hr
  cases hs ts hts (.real r) hr

end MathTemplate.Algebra
