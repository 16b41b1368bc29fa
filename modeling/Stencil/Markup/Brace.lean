import Stencil.Markup.Escape
import Stencil.Markup.Region

/-!
# Brace regions

`scanBraces` finds the top-level balanced regions between two delimiter
characters. Nested pairs stay inside the region around them, and an escaped
delimiter is plain text. The scan is one pass of a machine that is either
outside every region or inside one at some depth.
-/

namespace Stencil.Markup

/-- Where a scan for braces stands. Texts read so far are kept reversed. -/
inductive BracePhase where
  | outside (gap : Text)
  /-- In the region that opened at `start`, `depth` pairs deep inside it. -/
  | inside (gap : Text) (start depth : Nat) (body : Text)
deriving Repr, DecidableEq

namespace BracePhase

/-- The phase after a character that does not count. -/
def keep (c : Char) : BracePhase → BracePhase
  | outside gap => outside (c :: gap)
  | inside gap start depth body => inside gap start depth (c :: body)

/-- The phase after the unescaped character `c` at byte `offset`, and the
region that it completes. -/
def step (opening closing : Char) (offset : Nat) (c : Char) :
    BracePhase → BracePhase × Option Region
  | outside gap =>
      if c = opening then (inside gap offset 0 [], none) else (outside (c :: gap), none)
  | inside gap start depth body =>
      if c = opening then (inside gap start (depth + 1) (c :: body), none)
      else if c = closing then
        match depth with
        | 0 => (outside [], some ⟨gap.reverse, body.reverse, ⟨start, offset + c.utf8Size⟩⟩)
        | depth + 1 => (inside gap start depth (c :: body), none)
      else (inside gap start depth (c :: body), none)

def finish (opening : Char) : BracePhase → Scan
  | outside gap => ⟨[], gap.reverse, none⟩
  | inside gap start _ body => ⟨[], gap.reverse ++ opening :: body.reverse, some start⟩

end BracePhase

def scanBracesFrom (opening closing : Char) (escaped : Bool) (offset : Nat)
    (phase : BracePhase) : Text → Scan
  | [] => phase.finish opening
  | c :: rest =>
      let (phase, region) :=
        if escaped then (phase.keep c, none) else phase.step opening closing offset c
      (scanBracesFrom opening closing (pendingAfter escaped c) (offset + c.utf8Size)
        phase rest).consOption region

/-- The top-level balanced regions between `opening` and `closing`, without
their outermost delimiters. -/
def scanBraces (opening closing : Char) (t : Text) : Scan :=
  scanBracesFrom opening closing false 0 (.outside []) t

def scanExpressions (t : Text) : Scan :=
  scanBraces '{' '}' t

end Stencil.Markup
