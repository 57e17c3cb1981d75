/-
**The planes that pictures are scaled into.**

`Scaler::scale` makes three planes and has libyuv write the scaled picture into them: a row of the
luma plane for each row of the picture, and half as many in the planes of chroma, half as wide.
Halves are rounded up in a picture, and rounded down by the divisions here.

Main definitions:

* `Plane.Holds` — a plane holds rows that are a stride apart;
* `Transcode.VideoFrame.CanHold` — the planes of a frame hold its picture.

Main results:

* `Plane.Holds.of_le`, `Plane.Holds.last` — how large a plane has to be;
* `Transcode.Scaler.canHold_iff` — which outputs of the command line are scaled into planes that hold
  them.
-/

import RtmpTranscoder.Codecs
import RtmpTranscoder.OutputSpec

set_option relaxedAutoImplicit false
set_option autoImplicit false

namespace Plane

/-! ### Rows in a plane -/

/-- A plane of `size` bytes holds `rows` rows of `columns` bytes that are a `stride` apart: each of
these bytes has a place in it, of its own. -/
structure Holds (size : ℕ) (stride columns rows : ℤ) : Prop where
  within : ∀ row col, 0 ≤ row → row < rows → 0 ≤ col → col < columns →
    0 ≤ row * stride + col ∧ row * stride + col < size
  apart : ∀ row col row' col', 0 ≤ row → row < rows → 0 ≤ col → col < columns →
    0 ≤ row' → row' < rows → 0 ≤ col' → col' < columns →
      row * stride + col = row' * stride + col' → row = row' ∧ col = col'

variable {size : ℕ} {stride columns rows : ℤ}

theorem row_eq {row col : ℤ} (hcol : 0 ≤ col) (hlt : col < stride) :
    (row * stride + col) / stride = row := by
  rw [Int.add_comm, Int.add_mul_ediv_right _ _ (by omega), Int.ediv_eq_zero_of_lt hcol hlt, zero_add]

/-- A plane with room for all rows holds them, where a row is no longer than the stride. -/
theorem Holds.of_le (hcolumns : columns ≤ stride) (hsize : rows * stride ≤ size) :
    Holds size stride columns rows := by
  constructor
  · intro row col hrow hrows hcol hlt
    have hfirst : 0 ≤ row * stride := mul_nonneg hrow (by omega)
    have hnext : (row + 1) * stride ≤ rows * stride :=
      mul_le_mul_of_nonneg_right (by omega) (by omega)
    rw [add_mul, one_mul] at hnext
    exact ⟨by omega, by omega⟩
  · intro row col row' col' _ _ hcol hlt _ _ hcol' hlt' heq
    have hrow : row = row' := by
      calc row = (row * stride + col) / stride := (row_eq hcol (by omega)).symm
        _ = (row' * stride + col') / stride := by rw [heq]
        _ = row' := row_eq hcol' (by omega)
    subst hrow
    exact ⟨rfl, by omega⟩

/-- A plane that holds rows reaches to the end of the last one. -/
theorem Holds.last (h : Holds size stride columns rows) (hcolumns : 0 < columns) (hrows : 0 < rows) :
    (rows - 1) * stride + columns ≤ size := by
  have hlast := (h.within (rows - 1) (columns - 1) (by omega) (by omega) (by omega) (by omega)).2
  omega

theorem Holds.empty (h : columns ≤ 0 ∨ rows ≤ 0) : Holds size stride columns rows := by
  constructor
  · intro row col hrow hrows hcol hlt
    omega
  · intro row col row' col' hrow hrows hcol hlt
    omega

end Plane

namespace Transcode

open Text
open Plane (Holds)

/-! ### Frames -/

/-- The numbers that the sizes of the planes are computed from. -/
def VideoFrame.sizes (dst : VideoFrame) : List ℤ :=
  [dst.width, dst.height, dst.yStride, dst.uvStride, dst.yStride * dst.height,
    dst.uvStride * dst.height, (dst.uvStride * dst.height).tdiv 2]

/-- The planes of a frame hold its picture, and none of their sizes is negative or overflows. -/
structure VideoFrame.CanHold (dst : VideoFrame) : Prop where
  sizes : ∀ n ∈ dst.sizes, 0 ≤ n ∧ n < 2 ^ 31
  luma : Holds dst.yPlane.length dst.yStride dst.width dst.height
  chromaU : Holds dst.uPlane.length dst.uvStride ((dst.width + 1) / 2) ((dst.height + 1) / 2)
  chromaV : Holds dst.vPlane.length dst.uvStride ((dst.width + 1) / 2) ((dst.height + 1) / 2)

namespace Scaler

variable {w h : ℤ}

/-- A plane of chroma that holds its picture has not lost a half. -/
theorem even_of_holds (hw : 0 < w) (hh : 0 < h)
    (hholds : Holds ((w.tdiv 2 * h).tdiv 2).toNat (w.tdiv 2) ((w + 1) / 2) ((h + 1) / 2)) :
    Even w ∧ Even h := by
  have hlast := hholds.last (by omega) (by omega)
  rw [Int.tdiv_eq_ediv_of_nonneg hw.le] at hlast
  have hnonneg : 0 ≤ w / 2 * h := mul_nonneg (by omega) hh.le
  rw [Int.tdiv_eq_ediv_of_nonneg hnonneg, Int.toNat_of_nonneg (by omega)] at hlast
  obtain ⟨k, rfl | rfl⟩ := Int.even_or_odd' w
  · obtain ⟨m, rfl | rfl⟩ := Int.even_or_odd' h
    · exact ⟨even_two_mul k, even_two_mul m⟩
    · -- an odd height: the last row has half its place
      have hk : 2 * k / 2 = k := by omega
      have hcolumns : (2 * k + 1) / 2 = k := by omega
      have hrows : (2 * m + 1 + 1) / 2 - 1 = m := by omega
      rw [hk, hcolumns, hrows, show k * (2 * m + 1) = 2 * (m * k) + k by ring] at hlast
      omega
  · -- an odd width: each row lacks a byte
    exfalso
    have hk : (2 * k + 1) / 2 = k := by omega
    have hcolumns : (2 * k + 1 + 1) / 2 = k + 1 := by omega
    rw [hk, hcolumns] at hlast
    obtain ⟨m, rfl | rfl⟩ := Int.even_or_odd' h
    · have hrows : (2 * m + 1) / 2 - 1 = m - 1 := by omega
      rw [hrows, show k * (2 * m) = 2 * (m * k) by ring, sub_mul] at hlast
      omega
    · have hrows : (2 * m + 1 + 1) / 2 - 1 = m := by omega
      rw [hrows, show k * (2 * m + 1) = 2 * (m * k) + k by ring] at hlast
      omega

theorem holds_of_even (hw : 0 ≤ w) (hh : 0 ≤ h) (hweven : Even w) (hheven : Even h) :
    Holds ((w.tdiv 2 * h).tdiv 2).toNat (w.tdiv 2) ((w + 1) / 2) ((h + 1) / 2) := by
  have hnonneg : 0 ≤ w / 2 * h := mul_nonneg (by omega) hh
  rw [Int.tdiv_eq_ediv_of_nonneg hw, Int.tdiv_eq_ediv_of_nonneg hnonneg]
  obtain ⟨k, rfl⟩ := hweven.two_dvd
  obtain ⟨m, rfl⟩ := hheven.two_dvd
  refine Holds.of_le (by omega) ?_
  rw [Int.toNat_of_nonneg (by omega)]
  have hk : 2 * k / 2 = k := by omega
  have hrows : (2 * m + 1) / 2 = m := by omega
  rw [hk, hrows, show k * (2 * m) = 2 * (m * k) by ring]
  omega

/-- A plane of chroma holds its picture where no half is lost, or where there is no picture. -/
theorem holds_of_sizes (hw : 0 ≤ w) (hh : 0 ≤ h) (heven : w * h = 0 ∨ Even w ∧ Even h) :
    Holds ((w.tdiv 2 * h).tdiv 2).toNat (w.tdiv 2) ((w + 1) / 2) ((h + 1) / 2) := by
  rcases heven with hzero | ⟨hweven, hheven⟩
  · refine Holds.empty ?_
    rcases mul_eq_zero.1 hzero with rfl | rfl
    · exact Or.inl (by decide)
    · exact Or.inr (by decide)
  · exact holds_of_even hw hh hweven hheven

/-- What `scale` prepares holds the picture exactly for these sizes. -/
theorem canHold_prepare_iff (s : Scaler) (src : VideoFrame) (hwidth : s.dstWidth < 2 ^ 31)
    (hheight : s.dstHeight < 2 ^ 31) :
    (s.prepare src).CanHold ↔
      0 ≤ s.dstWidth ∧ 0 ≤ s.dstHeight ∧ s.dstWidth * s.dstHeight < 2 ^ 31 ∧
        (s.dstWidth * s.dstHeight = 0 ∨ Even s.dstWidth ∧ Even s.dstHeight) := by
  constructor
  · intro hcan
    have hwide := hcan.sizes s.dstWidth (by simp [VideoFrame.sizes, prepare])
    have hhigh := hcan.sizes s.dstHeight (by simp [VideoFrame.sizes, prepare])
    have harea := hcan.sizes (s.dstWidth * s.dstHeight) (by simp [VideoFrame.sizes, prepare])
    refine ⟨hwide.1, hhigh.1, harea.2, or_iff_not_imp_left.2 ?_⟩
    intro hnonzero
    rw [mul_eq_zero, not_or] at hnonzero
    refine even_of_holds (by omega) (by omega) ?_
    simpa [prepare] using hcan.chromaU
  · rintro ⟨hw, hh, harea, heven⟩
    have hchroma := holds_of_sizes hw hh heven
    have hhalf : s.dstWidth.tdiv 2 = s.dstWidth / 2 := Int.tdiv_eq_ediv_of_nonneg hw
    have hnonneg : 0 ≤ s.dstWidth / 2 * s.dstHeight := mul_nonneg (by omega) hh
    have hle : s.dstWidth / 2 * s.dstHeight ≤ s.dstWidth * s.dstHeight :=
      mul_le_mul_of_nonneg_right (by omega) hh
    have hproduct : 0 ≤ s.dstWidth * s.dstHeight := mul_nonneg hw hh
    constructor
    · intro n hn
      have hquarter := Int.tdiv_eq_ediv_of_nonneg (b := 2) hnonneg
      simp only [VideoFrame.sizes, prepare, hhalf, hquarter, List.mem_cons, List.not_mem_nil,
        or_false] at hn
      omega
    · refine Holds.of_le le_rfl ?_
      simp only [prepare, List.length_replicate]
      rw [Int.toNat_of_nonneg hproduct, mul_comm]
    · simpa [prepare] using hchroma
    · simpa [prepare] using hchroma

/-- **The planes that an output of the command line is scaled into hold the picture** exactly if
neither of its sizes is negative, its area is an `int`, and its sizes are even where there is
anything to scale. -/
theorem canHold_iff {spec : List UInt8} {out : OutputSpec} (hsize : spec.length < npos)
    (hparse : parseOutputSpec spec = some out) (srcWidth srcHeight : ℤ) (src : VideoFrame) :
    ((initializeWith srcWidth srcHeight out.width out.height).1.prepare src).CanHold ↔
      0 ≤ out.width ∧ 0 ≤ out.height ∧ out.width * out.height < 2 ^ 31 ∧
        (out.width * out.height = 0 ∨ Even out.width ∧ Even out.height) := by
  obtain ⟨_, _, _, _, hwidth, hheight, _⟩ := (OutputSpec.parseOutputSpec_eq_some_iff hsize).1 hparse
  exact canHold_prepare_iff _ src hwidth.lt hheight.lt

theorem canHold_720p :
    ((initializeWith 1920 1080 1280 720).1.prepare
      ⟨[], [], [], 1920, 1080, 1920, 960, 0, true⟩).CanHold := by
  have hparse : parseOutputSpec (ascii "720p:1280x720@2500,rtmp://server/live/stream_720p") =
      some ⟨ascii "720p", 1280, 720, 2500, 128, ascii "rtmp://server/live/stream_720p"⟩ := by
    decide +kernel
  exact (canHold_iff (by decide +kernel) hparse 1920 1080 _).2
    ⟨by decide, by decide, by decide, Or.inr ⟨by decide, by decide⟩⟩

/-- The last row of chroma of a picture of 853 columns ends behind its plane. -/
theorem not_canHold_480p :
    ¬ ∀ out, parseOutputSpec (ascii "480p:853x480@1200,rtmp://server/live/stream_480p") = some out →
      ((initializeWith 1280 720 out.width out.height).1.prepare
        ⟨[], [], [], 1280, 720, 1280, 640, 0, true⟩).CanHold := by
  intro h
  have hparse : parseOutputSpec (ascii "480p:853x480@1200,rtmp://server/live/stream_480p") =
      some ⟨ascii "480p", 853, 480, 1200, 64, ascii "rtmp://server/live/stream_480p"⟩ := by
    decide +kernel
  have hlast := ((h _ hparse).chromaU.within 239 426 (by decide) (by decide) (by decide) (by decide)).2
  simp only [prepare, initializeWith, List.length_replicate] at hlast
  exact absurd hlast (by decide)

end Scaler

end Transcode
