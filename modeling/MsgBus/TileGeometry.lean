import Mathlib.Algebra.BigOperators.Ring.List
import Mathlib.Data.List.Nodup
import MsgBus.Lib.TiledInterval
import MsgBus.TilingProgress

/-!
# Cells and tiles of an extent

The extent of a tiling is given in cells. Which tiles it has is found in four
ways: by rounding its bounds, by dividing its width and height, by asking for
a single tile and by adding up the cells of tiles clipped to it.
-/

set_option autoImplicit false

namespace MsgBus

namespace SudokuTiles

open SudokuTiling (mem_coords)
open TiledInterval (Aligned Counted)

variable {β : Type} (S : ℕ)

def width (t : SudokuTiles β) : ℤ := t.maxu-t.minu

def height (t : SudokuTiles β) : ℤ := t.maxv-t.minv

def cellCount (t : SudokuTiles β) : ℤ := t.width*t.height

def tilesCount (length : ℤ) : ℤ :=
  length.tdiv (cellsPerTileSide S)+(if length.tmod (cellsPerTileSide S) ≠ 0 then 1 else 0)

def xTilesCount (t : SudokuTiles β) : ℤ := tilesCount S t.width

def yTilesCount (t : SudokuTiles β) : ℤ := tilesCount S t.height

def isInExtent (t : SudokuTiles β) (x y : ℤ) : Bool :=
  let u := x*cellsPerTileSide S
  let v := y*cellsPerTileSide S
  t.minu ≤ u && u < t.maxu && (t.minv ≤ v && v < t.maxv)

/-- The cell lies in the tile. -/
def InTile (c : ℤ × ℤ) (u v : ℤ) : Prop :=
  (c.1*cellsPerTileSide S ≤ u ∧ u < (c.1+1)*cellsPerTileSide S) ∧
    c.2*cellsPerTileSide S ≤ v ∧ v < (c.2+1)*cellsPerTileSide S

structure GeometryAgrees (t : SudokuTiles β) : Prop where
  distinct : (t.boardsExtent S).coords.Nodup
  partition : ∀ u v, t.minu ≤ u → u < t.maxu → t.minv ≤ v → v < t.maxv →
    ∃! c, c ∈ (t.boardsExtent S).coords ∧ InTile S c u v
  cells : ((t.boardsExtent S).coords.map fun c => t.cellsPerTile S (coord c.1 c.2)).sum =
    t.cellCount
  inExtent : ∀ x y, t.isInExtent S x y = true ↔ (x,y) ∈ (t.boardsExtent S).coords
  xTiles : t.xTilesCount S = (t.boardsExtent S).xmax-(t.boardsExtent S).xmin
  yTiles : t.yTilesCount S = (t.boardsExtent S).ymax-(t.boardsExtent S).ymin

/-- An extent with cells is aligned in both directions; if there are none it is
enough that the numbers of tiles are right. -/
def ExtentAligned (t : SudokuTiles β) : Prop :=
  if t.minu = t.maxu ∨ t.minv = t.maxv then
    Counted (cellsPerTileSide S) t.minu t.maxu ∧ Counted (cellsPerTileSide S) t.minv t.maxv
  else
    Aligned (cellsPerTileSide S) t.minu t.maxu ∧ Aligned (cellsPerTileSide S) t.minv t.maxv

variable {S} {t : SudokuTiles β}

theorem cellsPerTileSide_pos (hS : 2 ≤ S) : 0 < cellsPerTileSide S := by
  have h : (2:ℤ) ≤ S := by exact_mod_cast hS
  exact mul_pos (by omega) (by omega)

theorem integerRange_nodup (a b : ℤ) : (integerRange a b).Nodup :=
  List.nodup_range.map fun i j h => by simpa using h

theorem coords_nodup (e : BoardsExtent) : e.coords.Nodup := by
  rw [BoardsExtent.coords, List.nodup_flatMap]
  constructor
  · intro y _
    exact (integerRange_nodup _ _).map fun x x' h => congrArg Prod.fst h
  · refine (integerRange_nodup _ _).imp fun {y y'} hne c hc hc' => hne ?_
    obtain ⟨x,-,rfl⟩ := List.mem_map.mp hc
    obtain ⟨x',-,hx⟩ := List.mem_map.mp hc'
    exact (congrArg Prod.snd hx).symm

/-- The sum over a grid of products of what the rows and columns give. -/
theorem sum_grid (f g : ℤ → ℤ) (xs ys : List ℤ) :
    ((ys.flatMap fun y => xs.map fun x => (x,y)).map fun c => f c.1*g c.2).sum =
      (xs.map f).sum*(ys.map g).sum := by
  induction ys with
  | nil => simp
  | cons y ys ih =>
    rw [List.flatMap_cons, List.map_append, List.sum_append, ih, List.map_cons, List.sum_cons,
      mul_add, List.map_map]
    congr 1
    exact List.sum_map_mul_right xs f (g y)

theorem isInExtent_iff (x y : ℤ) : t.isInExtent S x y = true ↔
    (t.minu ≤ x*cellsPerTileSide S ∧ x*cellsPerTileSide S < t.maxu) ∧
      t.minv ≤ y*cellsPerTileSide S ∧ y*cellsPerTileSide S < t.maxv := by
  simp [isInExtent]

section Sides

variable {lo hi : ℤ}

theorem conv_eq_away (c : ℤ) : conv S c = TiledInterval.away (cellsPerTileSide S) c := rfl

theorem aligned_tiles (hS : 2 ≤ S) (h : Aligned (cellsPerTileSide S) lo hi) :
    TiledInterval.Tiled (cellsPerTileSide S) lo hi (conv S lo) (conv S hi) :=
  TiledInterval.aligned_tiled (cellsPerTileSide_pos hS) h

theorem tilesCount_iff (hS : 2 ≤ S) (hle : lo ≤ hi) :
    tilesCount S (hi-lo) = conv S hi-conv S lo ↔ Counted (cellsPerTileSide S) lo hi :=
  TiledInterval.count_eq_iff_counted (cellsPerTileSide_pos hS) hle

theorem sum_side (hS : 2 ≤ S) (hle : lo ≤ hi) (h : Aligned (cellsPerTileSide S) lo hi) :
    ((integerRange (conv S lo) (conv S hi)).map fun x =>
      min ((x+1)*cellsPerTileSide S) hi-max (x*cellsPerTileSide S) lo).sum = hi-lo := by
  rw [integerRange, List.map_map]
  exact (aligned_tiles hS h).sum_parts (cellsPerTileSide_pos hS) hle

/-- A side is aligned if its rounded bounds have the tiles of the first and of
the last cell between them, and nothing before the first one. -/
theorem aligned_of_cells (hm : 0 < cellsPerTileSide S) {x x' : ℤ} (hx : conv S lo ≤ x)
    (hlo : x*cellsPerTileSide S ≤ lo) (hfirst : lo ≤ conv S lo*cellsPerTileSide S)
    (hx' : x' < conv S hi) (hhi : hi-1 < (x'+1)*cellsPerTileSide S) :
    Aligned (cellsPerTileSide S) lo hi := by
  refine TiledInterval.aligned_of_bounds hm (le_antisymm ?_ hfirst) ?_
  · exact (mul_le_mul_of_nonneg_right hx hm.le).trans hlo
  · have hpast : (x'+1)*cellsPerTileSide S ≤ conv S hi*cellsPerTileSide S :=
      mul_le_mul_of_nonneg_right hx' hm.le
    rw [conv_eq_away] at hpast
    omega

end Sides

/-! ## An extent with cells -/

theorem aligned_agrees (hS : 2 ≤ S) (hu : t.minu ≤ t.maxu) (hv : t.minv ≤ t.maxv)
    (hau : Aligned (cellsPerTileSide S) t.minu t.maxu)
    (hav : Aligned (cellsPerTileSide S) t.minv t.maxv) : GeometryAgrees S t := by
  have hm := cellsPerTileSide_pos hS
  have htu := aligned_tiles hS hau
  have htv := aligned_tiles hS hav
  constructor
  · exact coords_nodup _
  · intro u v hu hu' hv hv'
    refine ⟨(u/cellsPerTileSide S,v/cellsPerTileSide S),⟨mem_coords.mpr ?_,?_⟩,?_⟩
    · exact ⟨htu.tile_mem hm hu hu',htv.tile_mem hm hv hv'⟩
    · exact ⟨(TiledInterval.tile_iff hm).mpr rfl,(TiledInterval.tile_iff hm).mpr rfl⟩
    · rintro ⟨x,y⟩ ⟨-,hx,hy⟩
      rw [(TiledInterval.tile_iff hm).mp hx, (TiledInterval.tile_iff hm).mp hy]
  · have hgrid := sum_grid
      (fun x => min ((x+1)*cellsPerTileSide S) t.maxu-max (x*cellsPerTileSide S) t.minu)
      (fun y => min ((y+1)*cellsPerTileSide S) t.maxv-max (y*cellsPerTileSide S) t.minv)
      (integerRange (conv S t.minu) (conv S t.maxu)) (integerRange (conv S t.minv) (conv S t.maxv))
    rw [sum_side hS hu hau, sum_side hS hv hav] at hgrid
    exact hgrid
  · intro x y
    rw [isInExtent_iff, mem_coords, htu.begins_iff hm, htv.begins_iff hm]
    rfl
  · exact htu.count_eq hm hu
  · exact htv.count_eq hm hv

theorem aligned_of_agrees (hS : 2 ≤ S) (hu : t.minu < t.maxu) (hv : t.minv < t.maxv)
    (h : GeometryAgrees S t) : Aligned (cellsPerTileSide S) t.minu t.maxu ∧
      Aligned (cellsPerTileSide S) t.minv t.maxv := by
  have hm := cellsPerTileSide_pos hS
  -- the tiles of the first and of the last cell
  obtain ⟨⟨x,y⟩,⟨hc,hx,hy⟩,-⟩ := h.partition t.minu t.minv le_rfl hu le_rfl hv
  obtain ⟨⟨x',y'⟩,⟨hc',hx',hy'⟩,-⟩ := h.partition (t.maxu-1) (t.maxv-1) (by omega) (by omega)
    (by omega) (by omega)
  obtain ⟨hxs,hys⟩ := mem_coords.mp hc
  obtain ⟨hxs',hys'⟩ := mem_coords.mp hc'
  have hbegin : (conv S t.minu,conv S t.minv) ∈ (t.boardsExtent S).coords :=
    mem_coords.mpr ⟨⟨le_rfl,hxs.1.trans_lt hxs.2⟩,le_rfl,hys.1.trans_lt hys.2⟩
  obtain ⟨⟨hfirstu,-⟩,hfirstv,-⟩ := (isInExtent_iff _ _).mp ((h.inExtent _ _).mpr hbegin)
  constructor
  · exact aligned_of_cells hm hxs.1 hx.1 hfirstu hxs'.2 hx'.2
  · exact aligned_of_cells hm hys.1 hy.1 hfirstv hys'.2 hy'.2

/-! ## An extent without cells -/

theorem empty_agrees_iff (hS : 2 ≤ S) (hu : t.minu ≤ t.maxu) (hv : t.minv ≤ t.maxv)
    (hempty : t.minu = t.maxu ∨ t.minv = t.maxv) : GeometryAgrees S t ↔
      Counted (cellsPerTileSide S) t.minu t.maxu ∧ Counted (cellsPerTileSide S) t.minv t.maxv := by
  have hcoords (c : ℤ × ℤ) : c ∉ (t.boardsExtent S).coords := by
    rw [mem_coords]
    rintro ⟨hx,hy⟩
    obtain heq | heq := hempty
    · simp only [boardsExtent, heq] at hx
      omega
    · simp only [boardsExtent, heq] at hy
      omega
  constructor
  · intro h
    exact ⟨(tilesCount_iff hS hu).mp h.xTiles,(tilesCount_iff hS hv).mp h.yTiles⟩
  · rintro ⟨hcu,hcv⟩
    refine ⟨coords_nodup _,?_,?_,?_,(tilesCount_iff hS hu).mpr hcu,(tilesCount_iff hS hv).mpr hcv⟩
    · intro u v hu hu' hv hv'
      omega
    · rw [List.eq_nil_iff_forall_not_mem.mpr hcoords, cellCount, width, height]
      obtain heq | heq := hempty <;> simp [heq]
    · intro x y
      rw [isInExtent_iff, iff_false_right (hcoords (x,y))]
      omega

/-- The ways to find the tiles of an extent agree if and only if it is aligned. -/
theorem tile_geometry_iff {S : ℕ} (hS : 2 ≤ S) (t : SudokuTiles β) (hu : t.minu ≤ t.maxu)
    (hv : t.minv ≤ t.maxv) : GeometryAgrees S t ↔ ExtentAligned S t := by
  rw [ExtentAligned]
  split_ifs with hempty
  · exact empty_agrees_iff hS hu hv hempty
  · rw [not_or] at hempty
    constructor
    · exact aligned_of_agrees hS (by omega) (by omega)
    · rintro ⟨hau,hav⟩
      exact aligned_agrees hS hu hv hau hav

/-- An extent to both sides of the origin whose last tiles are clipped. -/
def clippedTiles : SudokuTiles Unit := setExtent {} (coord (-6) 0) (coord 9 10)

theorem clippedTiles_agrees : (2 ≤ 3 ∧ clippedTiles.minu ≤ clippedTiles.maxu ∧
    clippedTiles.minv ≤ clippedTiles.maxv) ∧ GeometryAgrees 3 clippedTiles := by
  have haligned : ExtentAligned 3 clippedTiles := by
    rw [ExtentAligned, if_neg (by decide)]
    exact ⟨⟨by decide,by decide⟩,by decide,by decide⟩
  exact ⟨by decide,
    (tile_geometry_iff (by decide) clippedTiles (by decide) (by decide)).mpr haligned⟩

/-- An extent that begins within a tile. -/
def shiftedTiles : SudokuTiles Unit := setExtent {} (coord 3 3) (coord 9 9)

/-- The tile of the first cell is not listed. -/
theorem shiftedTiles_disagrees : ¬ ∀ t : SudokuTiles Unit, t.minu ≤ t.maxu → t.minv ≤ t.maxv →
    GeometryAgrees 3 t := by
  intro h
  obtain ⟨c,⟨hc,hx,-⟩,-⟩ := (h shiftedTiles (by decide) (by decide)).partition 3 3 (by decide)
    (by decide) (by decide) (by decide)
  have hmin : (shiftedTiles.boardsExtent 3).xmin = 1 := by decide
  have hside : cellsPerTileSide 3 = 6 := by decide
  have hxmin := (mem_coords.mp hc).1.1
  rw [hmin] at hxmin
  rw [hside] at hx
  omega

end SudokuTiles

end MsgBus
