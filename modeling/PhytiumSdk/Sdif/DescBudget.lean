import PhytiumSdk.Lib.Cut
import PhytiumSdk.Sdif.Request

/-!
# SDIF: how many descriptors a buffer takes

Without RTEMS `sdif_dma_prepare` has `bus_dmamap_load` cut the client's buffer
into segments, one for each descriptor of the ring, and panics when there are too
many. The comment on `SDIF_MAX_DATA` asks for two descriptors in reserve, for the
two ends of a buffer that does not start where a block does. `phytium_sdif.c`
keeps them; `phytium_sdif_v2.c` has the comment and does not.
-/

namespace Phytium.Sdif

open Lib.Cut

/-- `PAGE_SIZE` -/
abbrev pageSize : ℕ := 4096

/-- What `bus_dma_tag_create` is told of the sizes. -/
structure DmaTag where
  maxsize : ℕ
  nsegments : ℕ
  maxsegsize : ℕ

/-- `sc->buf_tag`, in both drivers. -/
def bufTag : DmaTag where
  maxsize := idmacMaxSize * idmacDescSegs
  nsegments := idmacDescSegs
  maxsegsize := idmacMaxSize

/-- `bus_dmamap_load`, as the comment on `IDMAC_MAX_SIZE` describes it: it works on
whole pages first, and on the size of a segment then. -/
structure BusDma where
  /-- the segments of a buffer -/
  segments : DmaTag → ℕ → ℕ → List Piece
  /-- the load succeeds -/
  load : DmaTag → ℕ → ℕ → Bool
  segments_eq : ∀ tag addr len, segments tag addr len = pieces pageSize tag.maxsegsize addr len
  load_iff : ∀ tag addr len, load tag addr len = true ↔
    len ≤ tag.maxsize ∧ (segments tag addr len).length ≤ tag.nsegments

/-- The bytes advertised through `MMCBR_IVAR_MAX_DATA`. -/
def maxDataBytes (v : Version) : ℕ := sdifMaxData v * mmcSectorSize

/-- The buffer has a descriptor for every segment, and `sdif_dma_prepare` does not
panic over the length or a load that fails. The panic of `sdif_ring_setup` over a
segment that is not aligned is not in `dmaPrepareStep`: it does not depend on how
many segments there are. -/
structure BudgetKept (B : BusDma) (cfg : SdifConfig) (addr len : ℕ) : Prop where
  count : (B.segments bufTag addr len).length ≤ idmacDescSegs
  loaded : B.load bufTag addr len = true
  noPanic : ∀ k (d : MmcData) s, d.data = addr → d.len = len → s.panicked = false →
    (dmaPrepareStep cfg k (B.load bufTag d.data d.len) d s).panicked = false

variable {B : BusDma} {cfg : SdifConfig} {addr len : ℕ}

/-- What both drivers advertise fits the tag. -/
theorem maxDataBytes_le (v : Version) : maxDataBytes v ≤ bufTag.maxsize := by
  cases v <;> decide

/-- **The segments of a buffer** that fits the tag are few enough just when it does
not reach beyond the last descriptor, counted from the start of its first block. -/
theorem segments_length_le_iff (hlen : len ≤ bufTag.maxsize) :
    (B.segments bufTag addr len).length ≤ idmacDescSegs ↔
      len + addr % idmacMaxSize ≤ idmacMaxSize * idmacDescSegs := by
  have hmax : bufTag.maxsize = 2048 * 1024 := rfl
  rw [hmax] at hlen
  have hmod := Nat.mod_lt addr (show 0 < 2048 by decide)
  rw [B.segments_eq, show bufTag.maxsegsize = 2048 from rfl,
    pieces_length (by decide) (by decide) (by decide)]
  change (if len ≤ 4096 - addr % 4096 then (len + 2048 - 1) / 2048
    else (len + addr % 2048 + 2048 - 1) / 2048) ≤ 1024 ↔ len + addr % 2048 ≤ 2048 * 1024
  split <;> omega

theorem budgetKept_iff_count (hr : cfg.rtems = false) (h0 : addr ≠ 0)
    (hlen : len ≤ bufTag.maxsize) :
    BudgetKept B cfg addr len ↔ (B.segments bufTag addr len).length ≤ idmacDescSegs := by
  constructor
  · exact fun h => h.count
  · intro hcount
    have hload : B.load bufTag addr len = true := (B.load_iff ..).mpr ⟨hlen, hcount⟩
    refine ⟨hcount, hload, ?_⟩
    rintro k d s rfl rfl hs
    have hrun : (dmaPrepareStep cfg k true d s).panicked = s.panicked := by
      unfold dmaPrepareStep
      rw [hr, if_neg Bool.false_ne_true, if_neg h0, if_pos rfl]
      rfl
    rw [hload, hrun, hs]

/-- **The budget of descriptors.** A buffer of no more than the advertised length
is always within it with the first driver; with the second one just when its length
and what lies before it in its first block do not exceed the ring. -/
theorem desc_budget_iff (hr : cfg.rtems = false) (h0 : addr ≠ 0)
    (hlen : len ≤ maxDataBytes cfg.version) :
    BudgetKept B cfg addr len ↔
      cfg.version = .v1 ∨ len + addr % idmacMaxSize ≤ idmacMaxSize * idmacDescSegs := by
  have hfits : len ≤ bufTag.maxsize := hlen.trans (maxDataBytes_le _)
  rw [budgetKept_iff_count hr h0 hfits, segments_length_le_iff hfits]
  cases hv : cfg.version with
  | v1 =>
      -- the two descriptors in reserve
      rw [hv] at hlen
      have hmod := Nat.mod_lt addr (show 0 < 2048 by decide)
      change len ≤ 2048 * 1022 at hlen
      refine iff_of_true ?_ (Or.inl rfl)
      change len + addr % 2048 ≤ 2048 * 1024
      omega
  | v2 => simp

/-- A `bus_dmamap_load` as described. -/
def sampleBusDma : BusDma where
  segments := fun tag addr len => pieces pageSize tag.maxsegsize addr len
  load := fun tag addr len =>
    decide (len ≤ tag.maxsize ∧ (pieces pageSize tag.maxsegsize addr len).length ≤ tag.nsegments)
  segments_eq := fun _ _ _ => rfl
  load_iff := fun _ _ _ => decide_eq_true_iff

/-- A build without RTEMS. -/
def sampleDmamap (v : Version) : SdifConfig := { sampleSdif v with rtems := false }

theorem desc_budget_v1_longest :
    BudgetKept sampleBusDma (sampleDmamap .v1) 8 (maxDataBytes .v1) :=
  (desc_budget_iff rfl (by decide) (Nat.le_refl _)).mpr (Or.inl rfl)

/-- The longest buffer of the second driver, eight bytes into a page. -/
theorem desc_budget_exceeded :
    ¬ ∀ (B : BusDma) (cfg : SdifConfig) (addr len : ℕ), cfg.rtems = false → addr ≠ 0 →
      addr % 8 = 0 → len ≤ maxDataBytes cfg.version → BudgetKept B cfg addr len := by
  intro hall
  have hkept := hall sampleBusDma (sampleDmamap .v2) 8 (maxDataBytes .v2) rfl (by decide)
    (by decide) (Nat.le_refl _)
  have hcount := (segments_length_le_iff (maxDataBytes_le .v2)).mp hkept.count
  exact absurd hcount (by decide)

end Phytium.Sdif
