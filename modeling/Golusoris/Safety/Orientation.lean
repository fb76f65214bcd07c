import Mathlib.Data.Set.Function
import Mathlib.Logic.Function.Basic
import Mathlib.Tactic.Common

/-!
# Baking an orientation into pixels

`exif.Apply` of `storage/safety` turns an image upright by copying its pixels, in two
steps for the orientations that mirror a rotated image. The meaning of an orientation is
given apart from the code, by the sides at which the first row and the first column of
the stored image are seen.
-/

namespace Golusoris.Safety.Exif

open List

/-- `image.Rectangle` with its corners in order: the least point, and the sizes. -/
structure Rectangle where
  min : Int × Int
  dx : Nat
  dy : Nat

def Rectangle.contains (bounds : Rectangle) (point : Int × Int) : Bool :=
  bounds.min.1 ≤ point.1 ∧ point.1 < bounds.min.1 + bounds.dx ∧
    bounds.min.2 ≤ point.2 ∧ point.2 < bounds.min.2 + bounds.dy

/-- `color.RGBA`. -/
structure RGBA where
  r : UInt8 := 0
  g : UInt8 := 0
  b : UInt8 := 0
  a : UInt8 := 0

/-- The point with these coordinates from the least one. -/
def Rectangle.point (bounds : Rectangle) (s : Int × Int) : Int × Int :=
  (bounds.min.1 + s.1, bounds.min.2 + s.2)

structure Image (Colour : Type) where
  bounds : Rectangle
  pix : Int × Int → Colour

namespace Image

def newRGBA (bounds : Rectangle) : Image RGBA := ⟨bounds, fun _ => {}⟩

/-- `RGBA.At`: outside the bounds there is no colour. -/
def atPoint (image : Image RGBA) (point : Int × Int) : RGBA :=
  if image.bounds.contains point then image.pix point else {}

/-- `RGBA.Set`, which leaves points outside the bounds alone. -/
def set (image : Image RGBA) (point : Int × Int) (colour : RGBA) : Image RGBA :=
  if image.bounds.contains point then { image with pix := Function.update image.pix point colour }
  else image

end Image

/-- An `image.Image`: one in RGBA, or one with colours of another kind. -/
inductive Source (Colour : Type) where
  | rgba (image : Image RGBA)
  | other (image : Image Colour)

def Source.bounds {Colour : Type} : Source Colour → Rectangle
  | .rgba image => image.bounds
  | .other image => image.bounds

/-- An image that was drawn, and the points read for it, each with the bounds of the image
it was read from. -/
structure Drawn where
  image : Image RGBA
  reads : List (Rectangle × (Int × Int)) := []

variable {Colour : Type} (convert : Colour → RGBA)

/-- `draw.Draw` over the whole image converts every pixel. -/
def imageToRGBA : Source Colour → Image RGBA
  | .rgba image => image
  | .other image => ⟨image.bounds, fun point => convert (image.pix point)⟩

def cell (pixel : Nat × Nat) : Int × Int := (pixel.1, pixel.2)

/-- One round of `transform`. -/
def draw (rgba : Image RGBA) (fn : Int × Int → Int × Int) (drawn : Drawn) (pixel : Nat × Nat) :
    Drawn :=
  let point := rgba.bounds.point (fn (cell pixel))
  ⟨drawn.image.set (cell pixel) (rgba.atPoint point), drawn.reads ++ [(rgba.bounds, point)]⟩

/-- `fn` gives the point to read, from the least one of `src`. -/
def transform (src : Source Colour) (w h : Nat) (fn : Int × Int → Int × Int) : Drawn :=
  let rgba := imageToRGBA convert src
  (List.range h).foldl
    (fun drawn y => (List.range w).foldl (fun drawn x => draw rgba fn drawn (x, y)) drawn)
    ⟨.newRGBA ⟨(0, 0), w, h⟩, []⟩

def flipH (src : Source Colour) : Drawn :=
  let (w, h) := (src.bounds.dx, src.bounds.dy)
  transform convert src w h fun p => (w - 1 - p.1, p.2)

def flipV (src : Source Colour) : Drawn :=
  let (w, h) := (src.bounds.dx, src.bounds.dy)
  transform convert src w h fun p => (p.1, h - 1 - p.2)

def rotate180 (src : Source Colour) : Drawn :=
  let (w, h) := (src.bounds.dx, src.bounds.dy)
  transform convert src w h fun p => (w - 1 - p.1, h - 1 - p.2)

def rotate90 (src : Source Colour) : Drawn :=
  let (w, h) := (src.bounds.dx, src.bounds.dy)
  transform convert src h w fun p => (p.2, h - 1 - p.1)

def rotate270 (src : Source Colour) : Drawn :=
  let (w, h) := (src.bounds.dx, src.bounds.dy)
  transform convert src h w fun p => (w - 1 - p.2, p.1)

/-- The second step is given what the first has drawn. -/
def Drawn.andThen (first : Drawn) (next : Source Colour → Drawn) : Drawn :=
  let second := next (.rgba first.image)
  ⟨second.image, first.reads ++ second.reads⟩

/-- `Apply`: the image that is returned, and the reads. -/
def apply (src : Source Colour) (orientation : Int) :
    Source Colour × List (Rectangle × (Int × Int)) :=
  let returned (drawn : Drawn) := (Source.rgba drawn.image, drawn.reads)
  match orientation with
  | 2 => returned (flipH convert src)
  | 3 => returned (rotate180 convert src)
  | 4 => returned (flipV convert src)
  | 5 => returned ((rotate90 convert src).andThen (flipH convert))
  | 6 => returned (rotate90 convert src)
  | 7 => returned ((rotate270 convert src).andThen (flipH convert))
  | 8 => returned (rotate270 convert src)
  | _ => (src, [])

/-- The points of an image, from its least one. -/
def cells (w h : Int) : Set (Int × Int) := {p | 0 ≤ p.1 ∧ p.1 < w ∧ 0 ≤ p.2 ∧ p.2 < h}

inductive Side where
  | top
  | right
  | bottom
  | left

/-- How far a point of an image of that size is from a side. -/
def Side.distance (w h : Int) (point : Int × Int) : Side → Int
  | .top => point.2
  | .right => w - 1 - point.1
  | .bottom => h - 1 - point.2
  | .left => point.1

/-- The side of the upright image at which the first stored row is. -/
def firstRow : Int → Side
  | 3 | 4 => .bottom
  | 5 | 8 => .left
  | 6 | 7 => .right
  | _ => .top

/-- The side of the upright image at which the first stored column is. -/
def firstColumn : Int → Side
  | 2 | 3 => .right
  | 5 | 6 => .top
  | 7 | 8 => .bottom
  | _ => .left

/-- The column and the row that are stored for a point of an upright image of that size: 2
is a mirror, 3 half a turn, 4 a flip; 5 is the transpose and 7 the transverse; 6 is a
quarter turn clockwise, and 8 one the other way. -/
def stored (orientation w h : Int) (point : Int × Int) : Int × Int :=
  ((firstColumn orientation).distance w h point, (firstRow orientation).distance w h point)

example (w h x y : Int) : [5, 6, 7, 8].map (stored · w h (x, y)) =
    [(y, x), (y, w - 1 - x), (h - 1 - y, w - 1 - x), (h - 1 - y, x)] := rfl

/-- The colour of a point, relative to the least one. -/
def Source.colour (src : Source Colour) (point : Int × Int) : RGBA :=
  (imageToRGBA convert src).atPoint (src.bounds.point point)

/-- An upright image shows at every point what is stored for it, and each stored point once. -/
structure Upright (src dst : Source Colour) (orientation : Int) : Prop where
  dx : dst.bounds.dx = if 5 ≤ orientation then src.bounds.dy else src.bounds.dx
  dy : dst.bounds.dy = if 5 ≤ orientation then src.bounds.dx else src.bounds.dy
  colour : ∀ point ∈ cells dst.bounds.dx dst.bounds.dy,
    dst.colour convert point = src.colour convert (stored orientation dst.bounds.dx dst.bounds.dy point)
  bijective : Set.BijOn (stored orientation dst.bounds.dx dst.bounds.dy)
    (cells dst.bounds.dx dst.bounds.dy) (cells src.bounds.dx src.bounds.dy)

section Steps

variable {convert} {src : Source Colour} {w h w' h' : Nat} {fn fn' : Int × Int → Int × Int}

theorem contains_point {bounds : Rectangle} {s : Int × Int} :
    bounds.contains (bounds.point s) ↔ s ∈ cells bounds.dx bounds.dy := by
  rw [Rectangle.contains, decide_eq_true_iff, Rectangle.point, cells, Set.mem_ofPred_eq]
  dsimp only
  omega

theorem cell_injective : Function.Injective cell := by
  intro pixel other same
  obtain ⟨x, y⟩ := Prod.mk.inj same
  exact Prod.ext (Int.natCast_inj.mp x) (Int.natCast_inj.mp y)

@[simp] theorem bounds_imageToRGBA (src : Source Colour) :
    (imageToRGBA convert src).bounds = src.bounds := by
  cases src <;> rfl

/-- The points in the order of the loops. -/
def pixels (w h : Nat) : List (Nat × Nat) :=
  (List.range h).flatMap fun y => (List.range w).map fun x => (x, y)

theorem mem_pixels {pixel : Nat × Nat} : pixel ∈ pixels w h ↔ pixel.1 < w ∧ pixel.2 < h := by
  obtain ⟨x, y⟩ := pixel
  simp [pixels, and_comm]

theorem transform_eq : transform convert src w h fn =
    (pixels w h).foldl (draw (imageToRGBA convert src) fn) ⟨.newRGBA ⟨(0, 0), w, h⟩, []⟩ := by
  rw [pixels, foldl_flatMap, transform]
  simp only [foldl_map]

/-- The colour that was read for a pixel stays there. -/
theorem foldl_draw (rgba : Image RGBA) (fn : Int × Int → Int × Int) (list : List (Nat × Nat))
    (drawn : Drawn) (inside : ∀ pixel ∈ list, drawn.image.bounds.contains (cell pixel)) :
    (list.foldl (draw rgba fn) drawn).image.bounds = drawn.image.bounds ∧
      (list.foldl (draw rgba fn) drawn).reads = drawn.reads ++
        list.map (fun pixel => (rgba.bounds, rgba.bounds.point (fn (cell pixel)))) ∧
      ∀ pixel, (list.foldl (draw rgba fn) drawn).image.pix (cell pixel) =
        if pixel ∈ list then rgba.atPoint (rgba.bounds.point (fn (cell pixel)))
        else drawn.image.pix (cell pixel) := by
  induction list generalizing drawn with
  | nil => simp
  | cons first list ih =>
    obtain ⟨here, later⟩ := forall_mem_cons.mp inside
    have kept : (draw rgba fn drawn first).image.bounds = drawn.image.bounds := by
      rw [draw, Image.set, if_pos here]
    have painted : (draw rgba fn drawn first).image.pix = Function.update drawn.image.pix (cell first)
        (rgba.atPoint (rgba.bounds.point (fn (cell first)))) := by
      rw [draw, Image.set, if_pos here]
    obtain ⟨bounds, reads, pix⟩ := ih (draw rgba fn drawn first) (by rwa [kept])
    refine ⟨bounds.trans kept, ?_, fun pixel => ?_⟩
    · rw [foldl_cons, reads, draw, map_cons, append_assoc, singleton_append]
    · rw [foldl_cons, pix, painted]
      by_cases again : pixel ∈ list
      · rw [if_pos again, if_pos (mem_cons_of_mem _ again)]
      · rw [if_neg again]
        by_cases same : pixel = first
        · subst same
          rw [if_pos mem_cons_self, Function.update_self]
        · rw [Function.update_of_ne (cell_injective.ne same),
            if_neg (fun found => (mem_cons.mp found).elim same again)]

/-- What was drawn shows for every point the one that `fn` gives, and each point once. -/
structure Moves (convert : Colour → RGBA) (src : Source Colour) (w h : Nat)
    (fn : Int × Int → Int × Int) (drawn : Drawn) : Prop where
  bounds : drawn.image.bounds = ⟨(0, 0), w, h⟩
  colour : ∀ point ∈ cells w h, drawn.image.atPoint point = src.colour convert (fn point)
  bijective : Set.BijOn fn (cells w h) (cells src.bounds.dx src.bounds.dy)
  reads : ∀ read ∈ drawn.reads, read.1.contains read.2

theorem exists_cell {point : Int × Int} (inside : point ∈ cells w h) :
    ∃ pixel ∈ pixels w h, cell pixel = point := by
  obtain ⟨x, y⟩ := point
  obtain ⟨left, right, top, bottom⟩ := inside
  obtain ⟨x, rfl⟩ := Int.eq_ofNat_of_zero_le left
  obtain ⟨y, rfl⟩ := Int.eq_ofNat_of_zero_le top
  exact ⟨(x, y), mem_pixels.mpr ⟨Int.ofNat_lt.mp right, Int.ofNat_lt.mp bottom⟩, rfl⟩

theorem cell_mem {pixel : Nat × Nat} (listed : pixel ∈ pixels w h) : cell pixel ∈ cells w h := by
  obtain ⟨x, y⟩ := mem_pixels.mp listed
  exact ⟨Int.natCast_nonneg _, Int.ofNat_lt.mpr x, Int.natCast_nonneg _, Int.ofNat_lt.mpr y⟩

theorem transform_moves (bijective : Set.BijOn fn (cells w h) (cells src.bounds.dx src.bounds.dy)) :
    Moves convert src w h fn (transform convert src w h fn) := by
  have origin (point : Int × Int) : (Rectangle.mk (0, 0) w h).point point = point := by
    simp [Rectangle.point]
  have inside (pixel) (listed : pixel ∈ pixels w h) :
      (Rectangle.mk (0, 0) w h).contains (cell pixel) := by
    rw [← origin (cell pixel)]
    exact contains_point.mpr (cell_mem listed)
  obtain ⟨bounds, reads, pix⟩ := foldl_draw (imageToRGBA convert src) fn (pixels w h)
    ⟨.newRGBA ⟨(0, 0), w, h⟩, []⟩ inside
  rw [← transform_eq] at bounds reads pix
  refine ⟨bounds, fun point found => ?_, bijective, fun read listed => ?_⟩
  · obtain ⟨pixel, listed, rfl⟩ := exists_cell found
    rw [Image.atPoint, bounds, if_pos, pix, if_pos listed, Source.colour, bounds_imageToRGBA]
    exact inside pixel listed
  · rw [reads, nil_append] at listed
    obtain ⟨pixel, drawn, rfl⟩ := mem_map.mp listed
    rw [bounds_imageToRGBA]
    exact contains_point.mpr (bijective.mapsTo (cell_mem drawn))

/-- A step after another reads what the first has drawn. -/
theorem Moves.andThen {first : Drawn} {next : Source Colour → Drawn}
    (moves : Moves convert src w h fn first)
    (second : Moves convert (.rgba first.image) w' h' fn' (next (.rgba first.image))) :
    Moves convert src w' h' (fn ∘ fn') (first.andThen next) := by
  have bounds : (Source.rgba first.image : Source Colour).bounds = ⟨(0, 0), w, h⟩ := moves.bounds
  have between := second.bijective
  rw [bounds] at between
  refine ⟨second.bounds, fun point found => ?_, moves.bijective.comp between, fun read listed => ?_⟩
  · have shown : (Source.rgba first.image : Source Colour).colour convert (fn' point) =
        first.image.atPoint (fn' point) := by
      rw [Source.colour, bounds, Rectangle.point, Int.zero_add, Int.zero_add]
      rfl
    rw [Drawn.andThen, second.colour point found, shown, moves.colour _ (between.mapsTo found)]
    rfl
  · obtain listed | listed := mem_append.mp listed
    · exact moves.reads read listed
    · exact second.reads read listed

/-- A coordinate, counted from the other end if it is flipped. -/
def reflect (flip : Bool) (size i : Int) : Int := if flip then size - 1 - i else i

theorem reflect_reflect (flip : Bool) (size i : Int) : reflect flip size
    (reflect flip size i) = i := by
  cases flip with
  | false => rfl
  | true => exact Int.sub_sub_self (size - 1) i

theorem reflect_mem (flip : Bool) {size i : Int} (least : 0 ≤ i) (most : i < size) :
    0 ≤ reflect flip size i ∧ reflect flip size i < size := by
  cases flip with
  | false => exact ⟨least, most⟩
  | true =>
    rw [reflect, if_pos rfl]
    omega

/-- The map of a step from an image of that size, exchanged coordinates first. -/
def turn (swap flipX flipY : Bool) (w h : Int) (p : Int × Int) : Int × Int :=
  let q := if swap then (p.2, p.1) else p
  (reflect flipX w q.1, reflect flipY h q.2)

theorem turn_bijOn (swap flipX flipY : Bool) (w h : Int) :
    Set.BijOn (turn swap flipX flipY w h) (cells (if swap then h else w) (if swap then w else h))
      (cells w h) := by
  have into (p) (inside : p ∈ cells w h) :
      (reflect flipX w p.1, reflect flipY h p.2) ∈ cells w h := by
    obtain ⟨left, right, top, bottom⟩ := inside
    obtain ⟨left, right⟩ := reflect_mem flipX left right
    obtain ⟨top, bottom⟩ := reflect_mem flipY top bottom
    exact ⟨left, right, top, bottom⟩
  have undone (p : Int × Int) :
      (reflect flipX w (reflect flipX w p.1), reflect flipY h (reflect flipY h p.2)) = p := by
    rw [reflect_reflect, reflect_reflect]
  cases swap with
  | false =>
    have inverse : Set.InvOn (turn false flipX flipY w h) (turn false flipX flipY w h) (cells w h)
        (cells w h) := ⟨fun p _ => undone p, fun p _ => undone p⟩
    exact inverse.bijOn into into
  | true =>
    have exchanged (p) (inside : p ∈ cells h w) : (p.2, p.1) ∈ cells w h := by
      obtain ⟨left, right, top, bottom⟩ := inside
      exact ⟨top, bottom, left, right⟩
    let back (p : Int × Int) : Int × Int := (reflect flipY h p.2, reflect flipX w p.1)
    have inverse : Set.InvOn back (turn true flipX flipY w h) (cells h w) (cells w h) :=
      ⟨fun p _ => congrArg Prod.swap (undone (p.2, p.1)), fun p _ => undone p⟩
    refine inverse.bijOn (fun p inside => into _ (exchanged p inside)) fun p inside => ?_
    obtain ⟨left, right, top, bottom⟩ := into p inside
    exact ⟨top, bottom, left, right⟩

theorem flipH_moves (convert : Colour → RGBA) (src : Source Colour) :
    Moves convert src src.bounds.dx src.bounds.dy
      (turn false true false src.bounds.dx src.bounds.dy) (flipH convert src) :=
  transform_moves (turn_bijOn false true false _ _)

theorem flipV_moves (convert : Colour → RGBA) (src : Source Colour) :
    Moves convert src src.bounds.dx src.bounds.dy
      (turn false false true src.bounds.dx src.bounds.dy) (flipV convert src) :=
  transform_moves (turn_bijOn false false true _ _)

theorem rotate180_moves (convert : Colour → RGBA) (src : Source Colour) :
    Moves convert src src.bounds.dx src.bounds.dy
      (turn false true true src.bounds.dx src.bounds.dy) (rotate180 convert src) :=
  transform_moves (turn_bijOn false true true _ _)

theorem rotate90_moves (convert : Colour → RGBA) (src : Source Colour) :
    Moves convert src src.bounds.dy src.bounds.dx
      (turn true false true src.bounds.dx src.bounds.dy) (rotate90 convert src) :=
  transform_moves (turn_bijOn true false true _ _)

theorem rotate270_moves (convert : Colour → RGBA) (src : Source Colour) :
    Moves convert src src.bounds.dy src.bounds.dx
      (turn true true false src.bounds.dx src.bounds.dy) (rotate270 convert src) :=
  transform_moves (turn_bijOn true true false _ _)

theorem Moves.flipH {first : Drawn} (moves : Moves convert src w h fn first) :
    Moves convert src w h (fn ∘ turn false true false w h) (first.andThen (flipH convert)) := by
  have second := flipH_moves convert (.rgba first.image)
  have bounds : (Source.rgba first.image : Source Colour).bounds = ⟨(0, 0), w, h⟩ := moves.bounds
  rw [bounds] at second
  exact moves.andThen second

/-- What was drawn is upright if the map is the one the orientation means. -/
theorem Moves.upright {drawn : Drawn} {orientation : Int} (moves : Moves convert src w h fn drawn)
    (dx : w = if 5 ≤ orientation then src.bounds.dy else src.bounds.dx)
    (dy : h = if 5 ≤ orientation then src.bounds.dx else src.bounds.dy)
    (map : ∀ point, fn point = stored orientation w h point) :
    Upright convert src (.rgba drawn.image) orientation := by
  obtain rfl : fn = stored orientation w h := funext map
  have bounds : (Source.rgba drawn.image : Source Colour).bounds = ⟨(0, 0), w, h⟩ := moves.bounds
  refine ⟨?_, ?_, fun point inside => ?_, ?_⟩
  · rw [bounds, dx]
  · rw [bounds, dy]
  · rw [bounds] at inside ⊢
    rw [← moves.colour point inside, Source.colour, bounds, Rectangle.point, Int.zero_add,
      Int.zero_add]
    rfl
  · rw [bounds]
    exact moves.bijective

end Steps

/-- `Apply` turns an image upright, whatever its bounds and its colours are, and reads
nothing outside the image that a step is given. -/
theorem apply_upright (src : Source Colour) {orientation : Int} (least : 1 ≤ orientation)
    (most : orientation ≤ 8) :
    Upright convert src (apply convert src orientation).1 orientation ∧
      ∀ read ∈ (apply convert src orientation).2, read.1.contains read.2 := by
  obtain rfl | rfl | rfl | rfl | rfl | rfl | rfl | rfl : orientation = 1 ∨ orientation = 2 ∨
      orientation = 3 ∨ orientation = 4 ∨ orientation = 5 ∨ orientation = 6 ∨ orientation = 7 ∨
      orientation = 8 := by omega
  · refine ⟨⟨rfl, rfl, fun _ _ => rfl, ?_⟩, nofun⟩
    exact Set.bijOn_id _
  · have moves := flipH_moves convert src
    exact ⟨moves.upright rfl rfl fun _ => rfl, moves.reads⟩
  · have moves := rotate180_moves convert src
    exact ⟨moves.upright rfl rfl fun _ => rfl, moves.reads⟩
  · have moves := flipV_moves convert src
    exact ⟨moves.upright rfl rfl fun _ => rfl, moves.reads⟩
  · have moves := (rotate90_moves convert src).flipH
    refine ⟨moves.upright rfl rfl fun point => Prod.ext rfl ?_, moves.reads⟩
    exact Int.sub_sub_self _ _
  · have moves := rotate90_moves convert src
    exact ⟨moves.upright rfl rfl fun _ => rfl, moves.reads⟩
  · have moves := (rotate270_moves convert src).flipH
    exact ⟨moves.upright rfl rfl fun _ => rfl, moves.reads⟩
  · have moves := rotate270_moves convert src
    exact ⟨moves.upright rfl rfl fun _ => rfl, moves.reads⟩

theorem apply_upright_gray :
    let convert (gray : UInt8) : RGBA := ⟨gray, gray, gray, 255⟩
    let src : Source UInt8 :=
      .other ⟨⟨(3, -2), 2, 3⟩, fun point => UInt8.ofNat (point.1 * 9 + point.2).toNat⟩
    Upright convert src (apply convert src 6).1 6 ∧
      ∀ read ∈ (apply convert src 6).2, read.1.contains read.2 :=
  apply_upright _ _ (by decide) (by decide)

end Golusoris.Safety.Exif
