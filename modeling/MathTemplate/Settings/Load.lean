import MathTemplate.Settings.Decode
import MathTemplate.Settings.Toml

/-!
# Settings

What a settings file may say: the options of the expansion, those of the display form, the
assignments that seed the session, and where the images of plots are linked from.  Unknown
names in the file are left alone.
-/

namespace MathTemplate

/-- Everything a settings file may say. -/
structure Settings where
  expand : ExpandOptions := {}
  render : RenderOptions := {}
  /-- assignments that are evaluated before the template -/
  seed : List String := []
  plotUrl : Option String := none
  deriving DecidableEq, Repr

namespace Settings

/-- Options that stand among the other settings: only an empty table stands for nothing. -/
def topForm : OptionForm := ⟨Data.isEmptyTable, false⟩

/-- Options under a name of their own: an empty table or list stands for nothing, and what a
list holds behind the last option is left alone. -/
def groupForm : OptionForm := ⟨Data.isEmpty, true⟩

/-- The settings data gives. -/
def ofData? : Data → Option Settings
  | .table entries => do
    return {
      expand := ← ExpandOptions.ofData? topForm (.table entries)
      render := ← Data.field? (RenderOptions.ofData? groupForm) {} (Data.find? entries "render")
      seed := ← Data.field? Data.texts? [] (Data.find? entries "seed")
      plotUrl := ← Data.field? (fun d => d.asText?.map some) none
        (Data.find? entries "plot-url") }
  | _ => none

/-- The settings a settings file gives. -/
def ofText? (s : String) : Option Settings := (Toml.read? s).bind ofData?

end Settings

end MathTemplate
