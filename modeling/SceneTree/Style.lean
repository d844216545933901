/-! Styles. A material overrides some of the fields of the one it refers to; the root has them all.
Colours are names that only a renderer understands. -/
namespace SceneTree

structure Style where
  fill : Option String
  stroke : Option String
  strokeWidth : Option Float

structure Paint where
  fill : String
  stroke : String
  strokeWidth : Float

namespace Style

def inherit : Style := ⟨none, none, none⟩

/-- Every field of `inner` that is set, and those of `outer` elsewhere. -/
def overlay (outer inner : Style) : Style where
  fill := inner.fill <|> outer.fill
  stroke := inner.stroke <|> outer.stroke
  strokeWidth := inner.strokeWidth <|> outer.strokeWidth

theorem inherit_overlay (s : Style) : inherit.overlay s = s := by
  simp [overlay, inherit]

theorem overlay_inherit (s : Style) : s.overlay inherit = s := by
  simp [overlay, inherit]

theorem overlay_assoc (r s t : Style) : (r.overlay s).overlay t = r.overlay (s.overlay t) := by
  simp only [overlay, mk.injEq]
  refine ⟨?_, ?_, ?_⟩
  · cases t.fill <;> rfl
  · cases t.stroke <;> rfl
  · cases t.strokeWidth <;> rfl

def onto (s : Style) (base : Paint) : Paint where
  fill := s.fill.getD base.fill
  stroke := s.stroke.getD base.stroke
  strokeWidth := s.strokeWidth.getD base.strokeWidth

theorem inherit_onto (base : Paint) : inherit.onto base = base := rfl

theorem overlay_onto (s t : Style) (base : Paint) :
    (s.overlay t).onto base = t.onto (s.onto base) := by
  simp only [overlay, onto, Paint.mk.injEq]
  refine ⟨?_, ?_, ?_⟩
  · cases t.fill <;> rfl
  · cases t.stroke <;> rfl
  · cases t.strokeWidth <;> rfl

def same (s t : Style) : Bool :=
  s.fill == t.fill && s.stroke == t.stroke && s.strokeWidth == t.strokeWidth

end Style

def Paint.same (p q : Paint) : Bool :=
  p.fill == q.fill && p.stroke == q.stroke && p.strokeWidth == q.strokeWidth

end SceneTree
