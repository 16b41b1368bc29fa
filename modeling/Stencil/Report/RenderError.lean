import Stencil.Render.Error
import Stencil.Report.Layout

/-!
# Reports of failed renders

A report shows the range that a failure is about in the text that it is about.
-/

namespace Stencil.Render.RenderError

def label : RenderError → Text
  | expression _ _ _ cause =>
      if cause.expected = [] then cause.message
      else cause.message ++ "\nExpected: ".toList ++ List.intercalate ", ".toList cause.expected
  | unterminated kind _ _ => "this ".toList ++ kind.describe ++ " is never closed".toList
  | unknownPartial _ _ _ => "no partial with this name".toList
  | cyclic chain => (cyclic chain).message

/-- The report of a failure. `source` is the text that the failure is about, and
`name` is what the text is called. -/
def report (e : RenderError) (source name : Text) : Text :=
  Report.write e.message source name <|
    e.span?.map fun span =>
      { start := Text.charactersBefore span.start source
        stop := Text.charactersBefore span.stop source
        text := e.label }

end Stencil.Render.RenderError
