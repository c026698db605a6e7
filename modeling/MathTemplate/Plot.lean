import MathTemplate.Digest.Sha256
import MathTemplate.Text.Replace
import MathTemplate.Value

/-!
# Plots

A plot that is asked for is checked before it is drawn: its options must be among those a
renderer understands, and the text that stands for the image must be a string.  What draws a
plot is open (`PlotRenderer`); the placeholder links to where the image of the plot would be,
under a name that depends on the call alone.
-/

namespace MathTemplate

open Text (joined)

/-- Why a plot is not drawn. -/
inductive PlotFault where
  | altNotString
  | unsupportedOptions (names : List String)
  /-- the renderer failed -/
  | render (message : String)
  deriving DecidableEq, Repr

/-- The wording of a plot fault. -/
def PlotFault.message : PlotFault → String
  | altNotString => "Plot error: the alt tag definition must be a string, but is not."
  | unsupportedOptions names =>
    "Plot error: the following plot options are not supported: " ++ joined ", " names ++ "."
  | render message => "Plot error: " ++ message

/-- A plot that has been checked. -/
structure Plot where
  request : PlotRequest
  /-- the text that stands for the image -/
  alt : String
  deriving DecidableEq, Repr

/-- A way to draw plots. -/
abbrev PlotRenderer := Plot → Except PlotFault String

namespace Plot

/-- The options a renderer understands. -/
def supportedOptions : List String :=
  ["alt", "adapt_depth", "axes", "box", "color", "grid2d", "label", "legend", "logx", "logy",
    "nticks", "point_type", "style", "xlabel", "xtics", "y", "ylabel", "ytics", "yx_ratio"]

/-- Whether a parameter is a variable with its range. -/
def isRange (p : PlotParameter) : Bool :=
  p.values.length == 2 && !supportedOptions.contains p.name

/-! ### The text that stands for the image -/

/-- What stands between the quotes of a text in quotes. -/
def unquoted? (s : String) : Option (List Char) :=
  match s.toList with
  | '"' :: rest =>
    match rest.reverse with
    | '"' :: inner => some inner.reverse
    | _ => none
  | _ => none

/-- The text of a string as an evaluator writes it: first the quotes behind backslashes are
restored, then the backslashes. -/
def unescaped (cs : List Char) : List Char :=
  Text.replacePair '\\' '\\' ['\\'] (Text.replacePair '\\' '"' ['"'] cs)

/-- The text a parameter gives for the image. -/
def altText (p : PlotParameter) : Except PlotFault String :=
  match p.values with
  | [value] =>
    match unquoted? value with
    | some inner => .ok (String.ofList (unescaped inner))
    | none => .error .altNotString
  | _ => .error .altNotString

/-- The text that stands for the image when none is given. -/
def generatedAlt (r : PlotRequest) : String :=
  "Auto-generated plot of " ++ r.drawn ++ " with parameters ["
    ++ joined "," (r.parameters.map PlotParameter.input) ++ "]"

/-! ### Checking a request -/

/-- What the options of a request say. -/
structure Options where
  alt : Option String := none
  /-- the options that are not understood, the latest first -/
  unsupported : List String := []

/-- What is known once one more parameter has been looked at. -/
def look (known : Options) (p : PlotParameter) : Except PlotFault Options :=
  if isRange p then .ok known
  else if p.name = "alt" then (altText p).map fun text => { known with alt := some text }
  else if supportedOptions.contains p.name then .ok known
  else .ok { known with unsupported := p.name :: known.unsupported }

/-- A request that has been checked. -/
def ofRequest (r : PlotRequest) : Except PlotFault Plot := do
  let known ← r.parameters.foldlM look {}
  if known.unsupported.isEmpty then return ⟨r, known.alt.getD (generatedAlt r)⟩
  else .error (.unsupportedOptions known.unsupported.reverse)

/-! ### The placeholder -/

/-- The name of a plot: the beginning of the digest of its call. -/
def id (p : Plot) : String := String.ofList ((Digest.sha256Hex p.request.call).toList.take 16)

/-- A character inside an attribute in single quotes. -/
def escapedChar (c : Char) : List Char :=
  match c with
  | '&' => ['&', 'a', 'm', 'p', ';']
  | '<' => ['&', 'l', 't', ';']
  | '>' => ['&', 'g', 't', ';']
  | '\'' => ['&', '#', '3', '9', ';']
  | c => [c]

/-- A text inside an attribute in single quotes. -/
def escapeAttribute (s : String) : String := String.ofList (s.toList.flatMap escapedChar)

/-- A text without the slashes it ends with. -/
def withoutTrailingSlashes (s : String) : String :=
  String.ofList (s.toList.reverse.dropWhile fun c => c == '/').reverse

/-- The renderer that links to the images of plots below an address. -/
def placeholder (base : String) : PlotRenderer := fun p =>
  .ok ("<img src='" ++ withoutTrailingSlashes base ++ "/plot-" ++ p.id ++ ".png' alt='"
    ++ escapeAttribute p.alt ++ "' />")

/-- The address below which the images of plots are unless another is given. -/
def defaultBase : String := "plots"

end Plot

end MathTemplate
