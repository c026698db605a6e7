import MathTemplate.Template.Node
import MathTemplate.Text.Blank
import MathTemplate.Text.Numeric

/-!
# Attributes of a tag

The attributes of a tag are pairs `name="value"` or `name='value'`, with blanks between them
and around the equals sign.  A name begins with an alphabetic character, `_` or `%` and goes
on with alphanumeric characters, `_` and `%`.  In a value a backslash protects a backslash or
the quote the value stands in, and stands for itself in front of any other character.  No
name may be given twice.
-/

namespace MathTemplate.Template

open Text (Place trimStart)

/-- Whether the name of an attribute may begin with a character. -/
def beginsAttribute (c : Char) : Bool := Text.isAlphabetic c || c == '_' || c == '%'

/-- Whether the name of an attribute may go on with a character. -/
def continuesAttribute (c : Char) : Bool := Text.isAlphanumeric c || c == '_' || c == '%'

/-- The value behind its opening quote, and what follows its closing quote; `escaped` says
whether a backslash has just been read. -/
def quotedValue (quote : Char) (escaped : Bool) : List Char → Option (List Char × List Char)
  | [] => none
  | c :: rest =>
    if escaped then
      let kept := if c = quote ∨ c = '\\' then [c] else ['\\', c]
      (quotedValue quote false rest).map fun p => (kept ++ p.1, p.2)
    else if c = quote then some ([], rest)
    else if c = '\\' then quotedValue quote true rest
    else (quotedValue quote false rest).map fun p => (c :: p.1, p.2)

/-- The quoted value a text begins with, and what follows it; the value is that of the
attribute with the given name. -/
def readValue (name : String) : List Char → Except AttributeFault (String × List Char)
  | [] => .error (.unquoted name)
  | quote :: inner =>
    if quote = '"' ∨ quote = '\'' then
      match quotedValue quote false inner with
      | some (value, left) => .ok (String.ofList value, left)
      | none => .error (.openValue name)
    else .error (.unquoted name)

/-- The name and the value of the attribute that begins with the character `c`, and what
follows it. -/
def readAttribute (c : Char) (rest : List Char) :
    Except AttributeFault (String × String × List Char) :=
  if beginsAttribute c then
    let name := String.ofList (c :: rest.takeWhile continuesAttribute)
    match trimStart (rest.dropWhile continuesAttribute) with
    | '=' :: more => (readValue name (trimStart more)).map fun p => (name, p.1, p.2)
    | _ => .error (.missingValue name)
  else .error (.stray c)

private theorem quotedValue_length {quote : Char} {escaped : Bool} {cs value left : List Char}
    (h : quotedValue quote escaped cs = some (value, left)) :
  left.length < cs.length
  := by
  induction cs generalizing escaped value left with
  | nil => simp [quotedValue] at h
  | cons c rest ih =>
    unfold quotedValue at h
    split at h
    · obtain ⟨p, hp, hq⟩ := Option.map_eq_some_iff.1 h
      have := ih hp
      simp only [Prod.mk.injEq] at hq
      simp only [← hq.2, List.length_cons]
      omega
    · split at h
      · simp only [Option.some.injEq, Prod.mk.injEq] at h
        simp [← h.2]
      · split at h
        · have := ih h
          simp only [List.length_cons]
          omega
        · obtain ⟨p, hp, hq⟩ := Option.map_eq_some_iff.1 h
          have := ih hp
          simp only [Prod.mk.injEq] at hq
          simp only [← hq.2, List.length_cons]
          omega

private theorem trimStart_length (cs : List Char) :
  (trimStart cs).length ≤ cs.length
  := (List.dropWhile_suffix _).length_le

private theorem readValue_length {name value : String} {cs left : List Char}
    (h : readValue name cs = .ok (value, left)) :
  left.length < cs.length
  := by
  unfold readValue at h
  split at h
  · simp at h
  · split at h
    · split at h
      · rename_i hv
        have := quotedValue_length hv
        simp only [Except.ok.injEq, Prod.mk.injEq] at h
        simp only [← h.2, List.length_cons]
        omega
      · simp at h
    · simp at h

/-- An attribute takes at least its first character. -/
theorem readAttribute_length {c : Char} {rest left : List Char} {name value : String}
    (h : readAttribute c rest = .ok (name, value, left)) :
  left.length ≤ rest.length
  := by
  unfold readAttribute at h
  split at h
  · dsimp only at h
    split at h
    · rename_i more hm
      cases hv : readValue (String.ofList (c :: rest.takeWhile continuesAttribute))
          (trimStart more) with
      | error e => simp only [hv, Except.map, reduceCtorEq] at h
      | ok p =>
        simp only [hv, Except.map, Except.ok.injEq, Prod.mk.injEq] at h
        have h1 : p.2.length < (trimStart more).length := readValue_length hv
        have h2 := trimStart_length more
        have h3 := trimStart_length (rest.dropWhile continuesAttribute)
        have h4 := (List.dropWhile_suffix continuesAttribute (l := rest)).length_le
        rw [hm] at h3
        simp only [List.length_cons] at h3
        rw [← h.2.2]
        omega
    · simp at h
  · simp at h

/-- The attributes a text is made of, given its place and the names given before. -/
def attributesFrom (seen : List String) (place : Place) (cs : List Char) :
    Except AttributeFault (List Assignment) :=
  match _hc : trimStart cs with
  | [] => .ok []
  | c :: rest =>
    match _ha : readAttribute c rest with
    | .error fault => .error fault
    | .ok (name, value, left) =>
      if name ∈ seen then .error (.repeated name)
      else
        let start := place.upTo cs (c :: rest)
        let stop := start.upTo (c :: rest) left
        match attributesFrom (name :: seen) stop left with
        | .error fault => .error fault
        | .ok more => .ok (⟨name, value, ⟨0, start, stop⟩⟩ :: more)
  termination_by cs.length
  decreasing_by
    have h1 := readAttribute_length _ha
    have h2 := trimStart_length cs
    rw [_hc] at h2
    simp only [List.length_cons] at h2
    omega

/-- The attributes a text is made of, given its place. -/
def attributes (place : Place) (cs : List Char) : Except AttributeFault (List Assignment) :=
  attributesFrom [] place cs

end MathTemplate.Template
