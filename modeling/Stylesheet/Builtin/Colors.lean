import Stylesheet.Builtin.Arguments

/-!
# Color functions

Making colors from channels, reading their channels, and shifting them in hue, saturation,
lightness and opacity.
-/

namespace Stylesheet
namespace Builtin

/-- A channel; a percentage counts for its share of 255. -/
def channelOf (v : Value) : Result Float := do
  let (x, unit) ← numberOf v
  return if unit = some "%" then x * 255 / 100 else x

/-- An opacity; a percentage counts for its share of 1. -/
def alphaOf (v : Value) : Result Float := do
  let (x, unit) ← numberOf v
  return if unit = some "%" then x / 100 else x

/-- A weight in percent as a share of 1. -/
def weightOf (v : Value) : Result Float := do
  let (x, _) ← numberOf v
  return Number.clamp 0 1 (x / 100)

/-- A color of three channels and perhaps an opacity, or of a color and an opacity. -/
def rgb (args : List Value) : Result Value := do
  match args with
  | [color, alpha] =>
      let c ← colorOf color
      let a ← alphaOf alpha
      return .color (.clamped c.red c.green c.blue a)
  | [r, g, b] => return .color (.clamped (← channelOf r) (← channelOf g) (← channelOf b) 1)
  | [r, g, b, a] =>
      return .color (.clamped (← channelOf r) (← channelOf g) (← channelOf b) (← alphaOf a))
  | _ => badCount 2 4 args

/-- A color of hue, saturation and lightness; the opacity is looked at first. -/
def hslWith (h s l : Value) (alpha : Float) : Result Value := do
  let (hue, _) ← numberOf h
  let (saturation, _) ← numberOf s
  let (lightness, _) ← numberOf l
  return .color (.ofHsl ⟨hue, saturation, lightness⟩ alpha)

def hsl (args : List Value) : Result Value := do
  match args with
  | [h, s, l] => hslWith h s l 1
  | [h, s, l, a] => hslWith h s l (← alphaOf a)
  | _ => badCount 3 4 args

def channel (pick : Color → Float) : List Value → Result Value :=
  one fun v => return .bare (pick (← colorOf v))

def hslChannel (pick : Color.Hsl → Float) (unit : String) : List Value → Result Value :=
  one fun v => return .number (pick (← colorOf v).toHsl) (some unit)

/-- A color with its hue, saturation and lightness changed by an amount. -/
def shifted (shift : Color.Hsl → Float → Color.Hsl) (color : Value) (amount : Value) :
    Result Value := do
  let c ← colorOf color
  let (x, _) ← numberOf amount
  let target := shift c.toHsl x
  return .color
    (.ofHsl ⟨target.hue, Number.clamp 0 100 target.saturation, Number.clamp 0 100 target.lightness⟩ c.alpha)

def byHue (c : Color.Hsl) (x : Float) : Color.Hsl := { c with hue := c.hue + x }

def moreSaturated (c : Color.Hsl) (x : Float) : Color.Hsl :=
  { c with saturation := c.saturation + x }

def lessSaturated (c : Color.Hsl) (x : Float) : Color.Hsl :=
  { c with saturation := c.saturation - x }

def lighter (c : Color.Hsl) (x : Float) : Color.Hsl := { c with lightness := c.lightness + x }

def darker (c : Color.Hsl) (x : Float) : Color.Hsl := { c with lightness := c.lightness - x }

/-- A color with its opacity changed by an amount. -/
def faded (change : Float → Float → Float) : List Value → Result Value :=
  two fun color amount => do
    let c ← colorOf color
    let x ← alphaOf amount
    return .color (c.withAlpha (change c.alpha x))

def mix (args : List Value) : Result Value := do
  let blend (a b : Value) (weight : Float) : Result Value := do
    let c ← colorOf a
    let d ← colorOf b
    return .color (c.mix d weight)
  match args with
  | [a, b] => blend a b 0.5
  | [a, b, w] => blend a b (← weightOf w)
  | _ => badCount 2 3 args

/-- The opposite color, blended with the color itself by a weight. -/
def invert (args : List Value) : Result Value := do
  let blend (c : Color) (weight : Float) : Value :=
    .color ((Color.clamped (255 - c.red) (255 - c.green) (255 - c.blue) c.alpha).mix c weight)
  match args with
  | [a] => return blend (← colorOf a) 1
  | [a, w] =>
      let c ← colorOf a
      return blend c (← weightOf w)
  | _ => badCount 1 2 args

/-- The color functions by their names. -/
def colorFunctions : List (String × (List Value → Result Value)) :=
  [("rgb", rgb), ("rgba", rgb), ("hsl", hsl), ("hsla", hsl),
    ("red", channel Color.red), ("green", channel Color.green), ("blue", channel Color.blue),
    ("alpha", channel Color.alpha), ("opacity", channel Color.alpha),
    ("hue", hslChannel Color.Hsl.hue "deg"), ("saturation", hslChannel Color.Hsl.saturation "%"),
    ("lightness", hslChannel Color.Hsl.lightness "%"),
    ("lighten", two (shifted lighter)), ("darken", two (shifted darker)),
    ("saturate", two (shifted moreSaturated)), ("desaturate", two (shifted lessSaturated)),
    ("adjust-hue", two (shifted byHue)),
    ("complement", one fun c => shifted byHue c (.bare 180)),
    ("grayscale", one fun c => shifted lessSaturated c (.bare 100)),
    ("opacify", faded (· + ·)), ("fade-in", faded (· + ·)),
    ("transparentize", faded (· - ·)), ("fade-out", faded (· - ·)),
    ("mix", mix), ("invert", invert)]

end Builtin
end Stylesheet
