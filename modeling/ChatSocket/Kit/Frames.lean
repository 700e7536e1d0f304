/-
# `Kit.Frames` — records of one size over a byte stream

A sender writes frames of `n` bytes, one after the other, and the reader is
handed the stream in chunks: none is empty and none is longer than a frame
(`Chunking`).  Where the chunks end is not the sender's choice.

A reader that takes every chunk for a frame hands on one record a chunk.
`Chunking.count_iff` says that the count is right only if no frame was cut, so
such a reader cannot be right by luck; and then the chunks are the frames
(`Chunking.eq_frames_iff`).

`littleEndian` and `ofLittleEndian` are words as they lie in a frame.
-/
import Mathlib

namespace Kit

variable {α : Type} {n : Nat}

/-! ## Words -/

/-- The lowest `k` bytes of a word, the lowest first. -/
def littleEndian : Nat → Nat → List UInt8
  | 0, _ => []
  | k + 1, w => UInt8.ofNat (w % 256) :: littleEndian k (w / 256)

def ofLittleEndian (bytes : List UInt8) : Nat := bytes.foldr (fun b w => b.toNat + 256 * w) 0

@[simp] theorem length_littleEndian : ∀ k w : Nat, (littleEndian k w).length = k
  | 0, _ => rfl
  | k + 1, w => congrArg (· + 1) (length_littleEndian k (w / 256))

theorem ofLittleEndian_littleEndian (k : Nat) :
    ∀ w, w < 256 ^ k → ofLittleEndian (littleEndian k w) = w := by
  induction k with
  | zero =>
      intro w hw
      exact (Nat.lt_one_iff.mp hw).symm
  | succ k ih =>
      intro w hw
      have hdiv : w / 256 < 256 ^ k := by
        rw [Nat.pow_succ] at hw
        omega
      have hmod : (UInt8.ofNat (w % 256)).toNat = w % 256 := by
        rw [UInt8.toNat_ofNat']
        omega
      show (UInt8.ofNat (w % 256)).toNat + 256 * ofLittleEndian (littleEndian k (w / 256)) = w
      rw [ih _ hdiv, hmod]
      omega

/-! ## Chunks -/

/-- The stream of `frames`, handed out in `chunks`. -/
structure Chunking (n : Nat) (frames chunks : List (List α)) : Prop where
  whole : ∀ f ∈ frames, f.length = n
  bounded : ∀ c ∈ chunks, 0 < c.length ∧ c.length ≤ n
  joined : chunks.flatten = frames.flatten

theorem length_flatten_whole {l : List (List α)} (h : ∀ a ∈ l, a.length = n) :
    l.flatten.length = n * l.length := by
  induction l with
  | nil => rfl
  | cons a l ih =>
      obtain ⟨ha, hl⟩ := List.forall_mem_cons.mp h
      rw [List.flatten_cons, List.length_append, ha, ih hl, List.length_cons, Nat.mul_succ,
        Nat.add_comm]

theorem length_flatten_le {l : List (List α)} (h : ∀ a ∈ l, a.length ≤ n) :
    l.flatten.length ≤ n * l.length := by
  induction l with
  | nil => exact Nat.le_refl _
  | cons a l ih =>
      obtain ⟨ha, hl⟩ := List.forall_mem_cons.mp h
      have := ih hl
      rw [List.flatten_cons, List.length_append, List.length_cons, Nat.mul_succ]
      omega

/-- Short pieces do not add up. -/
theorem whole_of_length_flatten {l : List (List α)} (h : ∀ a ∈ l, a.length ≤ n)
    (hl : n * l.length ≤ l.flatten.length) : ∀ a ∈ l, a.length = n := by
  induction l with
  | nil => exact fun a ha => absurd ha List.not_mem_nil
  | cons a l ih =>
      obtain ⟨ha, htail⟩ := List.forall_mem_cons.mp h
      have hle := length_flatten_le htail
      rw [List.flatten_cons, List.length_append, List.length_cons, Nat.mul_succ] at hl
      exact List.forall_mem_cons.mpr ⟨by omega, ih htail (by omega)⟩

namespace Chunking

variable {frames chunks : List (List α)}

/-- There are as many chunks as frames exactly if no frame was cut. -/
theorem count_iff (hn : 0 < n) (h : Chunking n frames chunks) :
    chunks.length = frames.length ↔ ∀ c ∈ chunks, c.length = n := by
  have htotal : chunks.flatten.length = n * frames.length := by
    rw [h.joined, length_flatten_whole h.whole]
  constructor
  · intro hcount
    have hlen : n * chunks.length = chunks.flatten.length := by rw [htotal, hcount]
    exact whole_of_length_flatten (fun c hc => (h.bounded c hc).2) (Nat.le_of_eq hlen)
  · intro hwhole
    rw [length_flatten_whole hwhole] at htotal
    exact Nat.eq_of_mul_eq_mul_left hn htotal

/-- The chunks are the frames exactly if no frame was cut. -/
theorem eq_frames_iff (hn : 0 < n) (h : Chunking n frames chunks) :
    chunks = frames ↔ ∀ c ∈ chunks, c.length = n := by
  constructor
  · rintro rfl
    exact h.whole
  · intro hwhole
    have hcount := (h.count_iff hn).mpr hwhole
    refine List.eq_iff_flatten_eq.mpr ⟨h.joined, ?_⟩
    rw [List.map_eq_replicate_iff.mpr hwhole, List.map_eq_replicate_iff.mpr h.whole, hcount]

end Chunking

end Kit
