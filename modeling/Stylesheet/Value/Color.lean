import Stylesheet.Number.Notation
import Stylesheet.Text.Case

/-!
# Colors

A color has red, green and blue channels from 0 to 255 and an opacity from 0 to 1. It is read from
hex digits or a color name, goes over to hue, saturation and lightness and back, blends with
another color, and prints as `rgb(...)`, or as `rgba(...)` if it is not opaque.
-/

namespace Stylesheet

/-- A color by its channels and its opacity. -/
structure Color where
  red : Float
  green : Float
  blue : Float
  alpha : Float

namespace Color

/-- Colors are equal when their channels are equal numbers. -/
instance : BEq Color :=
  ⟨fun c d => c.red == d.red && c.green == d.green && c.blue == d.blue && c.alpha == d.alpha⟩

/-- An opaque color. -/
def opaqueOf (r g b : Float) : Color := ⟨r, g, b, 1⟩

/-- A color with its channels and its opacity brought within their bounds. -/
def clamped (r g b a : Float) : Color :=
  ⟨Number.clamp 0 255 r, Number.clamp 0 255 g, Number.clamp 0 255 b, Number.clamp 0 1 a⟩

/-! ### Reading -/

def hexDigit? (c : Char) : Option Nat :=
  if '0' ≤ c && c ≤ '9' then some (c.toNat - '0'.toNat)
  else if 'a' ≤ c && c ≤ 'f' then some (c.toNat - 'a'.toNat + 10)
  else if 'A' ≤ c && c ≤ 'F' then some (c.toNat - 'A'.toNat + 10)
  else none

/-- The channel of two hex digits. -/
def channel (high low : Nat) : Float := Float.ofNat (16 * high + low)

/-- The color of three, four, six or eight hex digits, with or without a hash sign. One digit for
a channel counts twice; a fourth channel is the opacity. -/
def ofHex? (text : String) : Option Color :=
  let cs := match text.toList with
    | '#' :: cs => cs
    | cs => cs
  match cs.mapM hexDigit? with
  | some [r, g, b] => some (opaqueOf (channel r r) (channel g g) (channel b b))
  | some [r, g, b, a] =>
      some (clamped (channel r r) (channel g g) (channel b b) (channel a a / 255))
  | some [r, r', g, g', b, b'] => some (opaqueOf (channel r r') (channel g g') (channel b b'))
  | some [r, r', g, g', b, b', a, a'] =>
      some (clamped (channel r r') (channel g g') (channel b b') (channel a a' / 255))
  | _ => none

/-- The named colors by their hex digits. -/
def named : List (String × String) :=
  [("aqua", "00ffff"), ("black", "000000"), ("blue", "0000ff"), ("brown", "a52a2a"),
    ("crimson", "dc143c"), ("cyan", "00ffff"), ("darkblue", "00008b"), ("darkgray", "a9a9a9"),
    ("darkgreen", "006400"), ("darkgrey", "a9a9a9"), ("darkred", "8b0000"), ("fuchsia", "ff00ff"),
    ("gold", "ffd700"), ("gray", "808080"), ("green", "008000"), ("grey", "808080"),
    ("indigo", "4b0082"), ("lightblue", "add8e6"), ("lightgray", "d3d3d3"),
    ("lightgreen", "90ee90"), ("lightgrey", "d3d3d3"), ("lime", "00ff00"), ("magenta", "ff00ff"),
    ("maroon", "800000"), ("navy", "000080"), ("olive", "808000"), ("orange", "ffa500"),
    ("pink", "ffc0cb"), ("purple", "800080"), ("red", "ff0000"), ("silver", "c0c0c0"),
    ("teal", "008080"), ("tomato", "ff6347"), ("violet", "ee82ee"), ("white", "ffffff"),
    ("yellow", "ffff00")]

/-- The color of a name, in any case. -/
def ofKeyword? (name : String) : Option Color :=
  let name := Text.asciiLower name
  if name = "transparent" then some ⟨0, 0, 0, 0⟩
  else (named.lookup name).bind ofHex?

/-! ### Hue, saturation and lightness -/

/-- A color by hue in degrees and by saturation and lightness in percent. -/
structure Hsl where
  hue : Float
  saturation : Float
  lightness : Float

/-- The share of a channel at a hue, where the whole circle is 1. -/
def share (p q hue : Float) : Float :=
  let hue := if hue < 0 then hue + 1 else if hue > 1 then hue - 1 else hue
  if hue * 6 < 1 then p + (q - p) * hue * 6
  else if hue * 2 < 1 then q
  else if hue * 3 < 2 then p + (q - p) * (2 / 3 - hue) * 6
  else p

def ofHsl (c : Hsl) (alpha : Float) : Color :=
  let h := Number.cycle c.hue 360 / 360
  let s := Number.clamp 0 1 (c.saturation / 100)
  let l := Number.clamp 0 1 (c.lightness / 100)
  let q := if l ≤ 0.5 then l * (s + 1) else l + s - l * s
  let p := l * 2 - q
  clamped (share p q (h + 1 / 3) * 255) (share p q h * 255) (share p q (h - 1 / 3) * 255) alpha

/-- The larger of two numbers; one that is no number gives way. -/
def larger (x y : Float) : Float := if x.isNaN then y else if x < y then y else x

/-- The smaller of two numbers; one that is no number gives way. -/
def smaller (x y : Float) : Float := if x.isNaN then y else if y < x then y else x

def toHsl (c : Color) : Hsl :=
  let r := c.red / 255
  let g := c.green / 255
  let b := c.blue / 255
  let high := larger (larger r g) b
  let low := smaller (smaller r g) b
  let delta := high - low
  let lightness := (high + low) / 2
  if delta == 0 then ⟨0, 0, lightness * 100⟩
  else
    let saturation := if lightness < 0.5 then delta / (high + low) else delta / (2 - high - low)
    let hue :=
      if high == r then (g - b) / delta + (if g < b then 6 else 0)
      else if high == g then (b - r) / delta + 2
      else (r - g) / delta + 4
    ⟨hue * 60, saturation * 100, lightness * 100⟩

/-! ### Changes -/

/-- The same channels with another opacity. -/
def withAlpha (c : Color) (alpha : Float) : Color := clamped c.red c.green c.blue alpha

/-- A blend of two colors. The weight is the share of the first, which counts the more the more
opaque it is. -/
def mix (c d : Color) (weight : Float) : Color :=
  let scaled := weight * 2 - 1
  let difference := c.alpha - d.alpha
  let combined :=
    if scaled * difference == -1 then scaled
    else (scaled + difference) / (1 + scaled * difference)
  let own := (combined + 1) / 2
  let rest := 1 - own
  clamped (c.red * own + d.red * rest) (c.green * own + d.green * rest)
    (c.blue * own + d.blue * rest) (c.alpha * weight + d.alpha * (1 - weight))

/-! ### Printing -/

/-- A channel as two hex digits. -/
def hexChannel (x : Float) : List Char :=
  let n := x.round.toUInt8.toNat
  [Nat.digitChar (n / 16), Nat.digitChar (n % 16)]

/-- The channels as hex digits. -/
def toHex (c : Color) : String :=
  String.ofList ('#' :: hexChannel c.red ++ hexChannel c.green ++ hexChannel c.blue)

def text (c : Color) : String :=
  let channels := Number.short c.red ++ ", " ++ Number.short c.green ++ ", " ++ Number.short c.blue
  if c.alpha == 1 then "rgb(" ++ channels ++ ")"
  else "rgba(" ++ channels ++ ", " ++ Number.short c.alpha ++ ")"

end Color
end Stylesheet
