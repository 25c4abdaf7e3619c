import Mathlib.Algebra.Ring.Nat
import Mathlib.Data.List.Basic
import Mathlib.Tactic.Common

/-!
# Length-Prefixed Framing

This module is the pure theory of a byte stream cut into **length-prefixed frames**: a
frame is a big-endian 32-bit word followed by that many bytes of body. It names no
program; a parser is verified by showing that it computes these functions.

A decoder only ever sees a finite list `U` of bytes that have arrived and have not been
handed out. `HasFrame U` says that the first frame of `U` is complete, `frameBody U` is
its body and `afterFrame U` is what follows it. The two facts every proof about
segmentation rests on are

* `HasFrame.append`: bytes that arrive later change neither the fact that the first frame
  is complete nor its body, and only extend what follows it;
* `HasFrame.eq_cons_of_append_eq`: when `U` is the part of a stream of whole frames that
  has arrived so far, a complete first frame of `U` is the first frame of the stream, and
  `lt_length_of_not_hasFrame` bounds an incomplete one.

## Main results

* `fromBigEndian_toBigEndian`: the 32-bit word survives its four bytes.
* `hasFrame_frame_append`, `frameBody_frame_append`, `afterFrame_frame_append`: a decoder
  that sees a whole frame returns its body and what follows.
-/

namespace Csci6780

/-! ### Buffers

`resize` and `copyInto` are `std::vector::resize` and the three-iterator `std::copy` on
lists: the first truncates or pads with zero bytes, the second overwrites a range in
place. -/

/-- Set the length of a buffer to `n`: truncate, or pad with zero bytes. -/
def resize (buffer : List UInt8) (n : ℕ) : List UInt8 :=
  buffer.take n ++ List.replicate (n - buffer.length) 0

/-- Overwrite the range of `target` that starts at `offset` with `source`. -/
def copyInto (source target : List UInt8) (offset : ℕ) : List UInt8 :=
  target.take offset ++ source ++ target.drop (offset + source.length)

/-- Growing a buffer by the length of `source` and copying `source` into the new room is
appending it. -/
theorem copyInto_resize_add (buffer source : List UInt8) :
    copyInto source (resize buffer (buffer.length + source.length)) buffer.length =
      buffer ++ source := by
  have htake : buffer.take (buffer.length + source.length) = buffer :=
    List.take_of_length_le (by omega)
  have hpad : buffer.length + source.length - buffer.length = source.length := by omega
  rw [resize, htake, hpad, copyInto, List.take_left, ← List.drop_drop, List.drop_left]
  simp

/-- Copying into a buffer of fixed size keeps its size when the copied range fits. -/
theorem length_copyInto {source target : List UInt8} {offset : ℕ}
    (h : offset + source.length ≤ target.length) :
    (copyInto source target offset).length = target.length := by
  simp only [copyInto, List.length_append, List.length_take, List.length_drop]
  omega

/-- After a copy, the bytes up to the end of the copied range are the bytes that stood
before it followed by the copied ones. -/
theorem take_copyInto (source : List UInt8) {target : List UInt8} {offset : ℕ}
    (h : offset ≤ target.length) :
    (copyInto source target offset).take (offset + source.length) =
      target.take offset ++ source := by
  have hlen : (target.take offset ++ source).length = offset + source.length := by
    simp only [List.length_append, List.length_take]
    omega
  rw [copyInto, ← hlen, List.take_left]

/-! ### Big-endian 32-bit words -/

/-- The four bytes of a 32-bit word, most significant first: the bytes of `htonl` in
memory order. -/
def toBigEndian (n : UInt32) : List UInt8 :=
  [UInt8.ofNat (n.toNat / 16777216), UInt8.ofNat (n.toNat / 65536),
    UInt8.ofNat (n.toNat / 256), UInt8.ofNat n.toNat]

/-- The 32-bit word whose bytes, most significant first, are given: `ntohl`. -/
def fromBigEndian (bytes : List UInt8) : UInt32 :=
  UInt32.ofNat (bytes.foldl (fun acc b => acc * 256 + b.toNat) 0)

@[simp] theorem length_toBigEndian (n : UInt32) : (toBigEndian n).length = 4 := rfl

/-- Reading the four bytes of a word gives the word back. -/
@[simp] theorem fromBigEndian_toBigEndian (n : UInt32) :
    fromBigEndian (toBigEndian n) = n := by
  have hn : n.toNat < 4294967296 := n.toNat_lt
  refine UInt32.toNat_inj.mp ?_
  simp only [fromBigEndian, toBigEndian, List.foldl_cons, List.foldl_nil,
    UInt32.toNat_ofNat', UInt8.toNat_ofNat', Nat.zero_mul, Nat.zero_add]
  omega

/-- Four bytes are the bytes of the word they are read as. -/
theorem toBigEndian_fromBigEndian {bytes : List UInt8} (h : bytes.length = 4) :
    toBigEndian (fromBigEndian bytes) = bytes := by
  obtain ⟨a, b, c, d, rfl⟩ : ∃ a b c d, bytes = [a, b, c, d] := by
    match bytes, h with
    | [a, b, c, d], _ => exact ⟨a, b, c, d, rfl⟩
  have ha : a.toNat < 256 := a.toNat_lt
  have hb : b.toNat < 256 := b.toNat_lt
  have hc : c.toNat < 256 := c.toNat_lt
  have hd : d.toNat < 256 := d.toNat_lt
  simp only [toBigEndian, fromBigEndian, List.foldl_cons, List.foldl_nil, Nat.zero_mul,
    Nat.zero_add, UInt32.toNat_ofNat', List.cons.injEq, and_true, ← UInt8.toNat_inj,
    UInt8.toNat_ofNat']
  omega

/-! ### The first frame of a stream -/

/-- The body length announced by the first four bytes of `U`. -/
def frameLength (U : List UInt8) : ℕ := (fromBigEndian (U.take 4)).toNat

/-- The first frame of `U` has arrived completely. -/
def HasFrame (U : List UInt8) : Prop := 4 ≤ U.length ∧ 4 + frameLength U ≤ U.length

instance (U : List UInt8) : Decidable (HasFrame U) :=
  inferInstanceAs (Decidable (4 ≤ U.length ∧ 4 + frameLength U ≤ U.length))

/-- The body of the first frame of `U`. -/
def frameBody (U : List UInt8) : List UInt8 := (U.drop 4).take (frameLength U)

/-- What follows the first frame of `U`. -/
def afterFrame (U : List UInt8) : List UInt8 := U.drop (4 + frameLength U)

/-- Bytes beyond the length prefix do not change the announced length. -/
theorem frameLength_append {U : List UInt8} (h : 4 ≤ U.length) (V : List UInt8) :
    frameLength (U ++ V) = frameLength U := by
  rw [frameLength, frameLength, List.take_append_of_le_length h]

theorem not_hasFrame_nil : ¬ HasFrame [] := by decide

/-- A complete first frame has exactly the announced number of body bytes. -/
theorem HasFrame.length_frameBody {U : List UInt8} (h : HasFrame U) :
    (frameBody U).length = frameLength U := by
  obtain ⟨_, hU⟩ := h
  simp only [frameBody, List.length_take, List.length_drop]
  omega

/-- A body fits its length prefix. -/
theorem HasFrame.length_frameBody_lt {U : List UInt8} (h : HasFrame U) :
    (frameBody U).length < 2 ^ 32 := by
  rw [h.length_frameBody]
  exact (fromBigEndian _).toNat_lt

/-- Taking a complete frame off a stream removes its prefix and its body. -/
theorem HasFrame.length_afterFrame {U : List UInt8} (h : HasFrame U) :
    (afterFrame U).length + (4 + (frameBody U).length) = U.length := by
  have hbody := h.length_frameBody
  obtain ⟨_, hU⟩ := h
  simp only [afterFrame, List.length_drop]
  omega

/-- **Later bytes do not disturb a complete frame.** -/
theorem HasFrame.append {U : List UInt8} (h : HasFrame U) (V : List UInt8) :
    HasFrame (U ++ V) ∧ frameBody (U ++ V) = frameBody U ∧
      afterFrame (U ++ V) = afterFrame U ++ V := by
  obtain ⟨h4, hU⟩ := h
  have hlen := frameLength_append h4 V
  refine ⟨⟨?_, ?_⟩, ?_, ?_⟩
  · rw [List.length_append]
    omega
  · rw [hlen, List.length_append]
    omega
  · rw [frameBody, hlen, List.drop_append_of_le_length h4, List.take_append_of_le_length,
      frameBody]
    rw [List.length_drop]
    omega
  · rw [afterFrame, hlen, List.drop_append_of_le_length hU, afterFrame]

/-- When the bytes that complete the first frame arrive, less than all of them follow the
frame. -/
theorem HasFrame.length_afterFrame_lt {U V : List UInt8} (h : HasFrame (U ++ V))
    (hno : ¬ HasFrame U) : (afterFrame (U ++ V)).length < V.length := by
  have hlen := h.length_afterFrame
  rw [h.length_frameBody, List.length_append] at hlen
  by_cases h4 : 4 ≤ U.length
  · rw [frameLength_append h4] at hlen
    have hshort : ¬ 4 + frameLength U ≤ U.length := fun hle => hno ⟨h4, hle⟩
    omega
  · omega

/-! ### Streams of whole frames -/

/-- The frame of a body: its length as a big-endian word, then the body. -/
def frame (body : List UInt8) : List UInt8 :=
  toBigEndian (UInt32.ofNat body.length) ++ body

/-- The stream of a list of bodies: their frames one after another. -/
def frames (bodies : List (List UInt8)) : List UInt8 := bodies.flatMap frame

@[simp] theorem length_frame (body : List UInt8) : (frame body).length = 4 + body.length := by
  simp [frame]

@[simp] theorem frames_nil : frames [] = [] := rfl

@[simp] theorem frames_cons (body : List UInt8) (bodies : List (List UInt8)) :
    frames (body :: bodies) = frame body ++ frames bodies := rfl

@[simp] theorem frames_append (as bs : List (List UInt8)) :
    frames (as ++ bs) = frames as ++ frames bs := by
  simp [frames]

/-- No frame is empty, so only the empty list of bodies has the empty stream. -/
theorem frames_eq_nil_iff {bodies : List (List UInt8)} : frames bodies = [] ↔ bodies = [] := by
  cases bodies with
  | nil => simp
  | cons body bodies =>
      have hlen : (frames (body :: bodies)).length ≠ 0 := by simp
      simp only [reduceCtorEq, iff_false]
      intro h
      rw [h] at hlen
      exact hlen rfl

/-- A complete first frame is the frame of its body. -/
theorem HasFrame.eq_frame_append {U : List UInt8} (h : HasFrame U) :
    U = frame (frameBody U) ++ afterFrame U := by
  have hword : toBigEndian (UInt32.ofNat (frameBody U).length) = U.take 4 := by
    rw [h.length_frameBody, frameLength, UInt32.ofNat_toNat]
    refine toBigEndian_fromBigEndian ?_
    rw [List.length_take]
    exact Nat.min_eq_left h.1
  have hrest : frameBody U ++ afterFrame U = U.drop 4 := by
    rw [frameBody, afterFrame, ← List.drop_drop]
    exact List.take_append_drop _ _
  rw [frame, hword, List.append_assoc, hrest, List.take_append_drop]

section WholeFrame

variable {body : List UInt8} (hbody : body.length < 2 ^ 32)

include hbody

theorem frameLength_frame_append (rest : List UInt8) :
    frameLength (frame body ++ rest) = body.length := by
  have htake : (frame body ++ rest).take 4 = toBigEndian (UInt32.ofNat body.length) := by
    rw [frame, List.append_assoc]
    exact List.take_left' (by simp)
  rw [frameLength, htake, fromBigEndian_toBigEndian, UInt32.toNat_ofNat']
  exact Nat.mod_eq_of_lt hbody

/-- A whole frame at the front of a stream is complete. -/
theorem hasFrame_frame_append (rest : List UInt8) : HasFrame (frame body ++ rest) := by
  have hlen := frameLength_frame_append hbody rest
  refine ⟨?_, ?_⟩
  · simp only [List.length_append, length_frame]
    omega
  · simp only [hlen, List.length_append, length_frame]
    omega

/-- A whole frame at the front of a stream decodes to its body. -/
theorem frameBody_frame_append (rest : List UInt8) :
    frameBody (frame body ++ rest) = body := by
  have hdrop : (frame body ++ rest).drop 4 = body ++ rest := by
    rw [frame, List.append_assoc]
    exact List.drop_left' (by simp)
  rw [frameBody, frameLength_frame_append hbody, hdrop, List.take_left]

/-- What follows a whole frame at the front of a stream is the rest of the stream. -/
theorem afterFrame_frame_append (rest : List UInt8) :
    afterFrame (frame body ++ rest) = rest := by
  rw [afterFrame, frameLength_frame_append hbody, ← length_frame body, List.drop_left]

end WholeFrame

/-- Every body of a list fits its 32-bit length prefix. -/
def Framable (bodies : List (List UInt8)) : Prop := ∀ body ∈ bodies, body.length < 2 ^ 32

instance (bodies : List (List UInt8)) : Decidable (Framable bodies) :=
  inferInstanceAs (Decidable (∀ body ∈ bodies, _))

theorem framable_nil : Framable [] := fun _ hb => absurd hb List.not_mem_nil

theorem Framable.cons {body : List UInt8} {bodies : List (List UInt8)} (h : Framable bodies)
    (hbody : body.length < 2 ^ 32) : Framable (body :: bodies) := by
  intro b hmem
  rcases List.mem_cons.mp hmem with rfl | hmem
  · exact hbody
  · exact h b hmem

theorem Framable.concat {body : List UInt8} {bodies : List (List UInt8)} (h : Framable bodies)
    (hbody : body.length < 2 ^ 32) : Framable (bodies ++ [body]) := by
  intro b hmem
  rcases List.mem_append.mp hmem with hmem | hmem
  · exact h b hmem
  · exact List.mem_singleton.mp hmem ▸ hbody

theorem Framable.tail {body : List UInt8} {bodies : List (List UInt8)}
    (h : Framable (body :: bodies)) : Framable bodies :=
  fun b hb => h b (List.mem_cons_of_mem _ hb)

theorem Framable.head {body : List UInt8} {bodies : List (List UInt8)}
    (h : Framable (body :: bodies)) : body.length < 2 ^ 32 :=
  h body List.mem_cons_self

/-- When the bytes that have arrived begin a stream with a whole frame in front and their
first frame is complete, it is that frame. -/
theorem HasFrame.eq_of_append_eq {U V body rest : List UInt8} (h : HasFrame U)
    (hbody : body.length < 2 ^ 32) (hUV : U ++ V = frame body ++ rest) :
    frameBody U = body ∧ afterFrame U ++ V = rest := by
  obtain ⟨-, hb, ha⟩ := h.append V
  rw [hUV, frameBody_frame_append hbody] at hb
  rw [hUV, afterFrame_frame_append hbody] at ha
  exact ⟨hb.symm, ha.symm⟩

/-- When the bytes that have arrived are a part of a stream of whole frames and their
first frame is complete, that frame is the first frame of the stream. -/
theorem HasFrame.eq_cons_of_append_eq {U V : List UInt8} {bodies : List (List UInt8)}
    (h : HasFrame U) (hb : Framable bodies) (hUV : U ++ V = frames bodies) :
    ∃ rest, bodies = frameBody U :: rest ∧ afterFrame U ++ V = frames rest := by
  cases bodies with
  | nil =>
      rw [frames_nil, List.append_eq_nil_iff] at hUV
      rw [hUV.1] at h
      exact absurd h not_hasFrame_nil
  | cons body rest =>
      obtain ⟨hbody, hafter⟩ := h.eq_of_append_eq hb.head hUV
      exact ⟨rest, by rw [hbody], hafter⟩

/-- A part of a frame that is not all of it holds no complete frame. -/
theorem not_hasFrame_of_prefix_frame {part body : List UInt8} (hbody : body.length < 2 ^ 32)
    (hpart : part <+: frame body) (hne : part ≠ frame body) : ¬ HasFrame part := by
  obtain ⟨missing, happ⟩ := hpart
  intro hf
  have hstream : part ++ missing = frame body ++ [] := by rw [happ, List.append_nil]
  obtain ⟨-, hafter⟩ := hf.eq_of_append_eq hbody hstream
  obtain rfl : missing = [] := (List.append_eq_nil_iff.mp hafter).2
  exact hne (by rw [← happ, List.append_nil])

/-- A stream of at least one whole frame has a complete first frame. -/
theorem hasFrame_frames_cons {body : List UInt8} {bodies : List (List UInt8)}
    (hb : Framable (body :: bodies)) : HasFrame (frames (body :: bodies)) := by
  rw [frames_cons]
  exact hasFrame_frame_append hb.head _

/-- The bytes that have arrived of a stream with a whole frame in front, when they hold no
complete frame, are less than that frame. -/
theorem lt_length_of_not_hasFrame {U V body rest : List UInt8} (h : ¬ HasFrame U)
    (hbody : body.length < 2 ^ 32) (hUV : U ++ V = frame body ++ rest) :
    U.length < (frame body).length := by
  by_contra hle
  refine h ?_
  obtain ⟨tail, rfl⟩ : frame body <+: U := by
    refine List.prefix_of_prefix_length_le ?_ (List.prefix_append U V) (by omega)
    rw [hUV]
    exact List.prefix_append _ _
  exact hasFrame_frame_append hbody tail

/-- A stream of whole frames that holds no complete frame is empty. -/
theorem eq_nil_of_not_hasFrame {bodies : List (List UInt8)} (hb : Framable bodies)
    (h : ¬ HasFrame (frames bodies)) : bodies = [] := by
  cases bodies with
  | nil => rfl
  | cons body rest => exact absurd (hasFrame_frames_cons hb) h

/-- The bytes are a whole number of frames. -/
def WholeFrames (U : List UInt8) : Prop := ∃ bodies, Framable bodies ∧ U = frames bodies

theorem wholeFrames_nil : WholeFrames [] := ⟨[], framable_nil, rfl⟩

/-- A frame in front does not change whether the bytes are a whole number of frames. -/
theorem wholeFrames_frame_append_iff {body : List UInt8} (hbody : body.length < 2 ^ 32)
    (U : List UInt8) : WholeFrames (frame body ++ U) ↔ WholeFrames U := by
  constructor
  · rintro ⟨bodies, hb, hU⟩
    have hf := hasFrame_frame_append hbody U
    obtain ⟨rest, rfl, hrest⟩ := hf.eq_cons_of_append_eq hb (by rw [List.append_nil, hU])
    rw [afterFrame_frame_append hbody, List.append_nil] at hrest
    exact ⟨rest, hb.tail, hrest⟩
  · rintro ⟨bodies, hb, rfl⟩
    exact ⟨body :: bodies, hb.cons hbody, rfl⟩

/-- A whole number of frames at the front of a stream of frames are the first frames of the
stream. -/
theorem WholeFrames.eq_frames_take {U : List UInt8} (h : WholeFrames U)
    {bodies : List (List UInt8)} (hb : Framable bodies) (hU : U <+: frames bodies) :
    ∃ i, U = frames (bodies.take i) := by
  obtain ⟨own, hown, rfl⟩ := h
  obtain ⟨rest, hrest⟩ := hU
  refine ⟨own.length, ?_⟩
  induction own generalizing bodies with
  | nil => rw [List.length_nil, List.take_zero]
  | cons body own ih =>
      have hf := hasFrame_frame_append hown.head (frames own ++ rest)
      rw [frames_cons, List.append_assoc] at hrest
      obtain ⟨later, rfl, hlater⟩ := hf.eq_cons_of_append_eq hb (by rw [List.append_nil, hrest])
      rw [afterFrame_frame_append hown.head, List.append_nil] at hlater
      rw [frameBody_frame_append hown.head, List.length_cons, List.take_succ_cons, frames_cons,
        frames_cons, ← ih hb.tail hown.tail hlater]

/-- Bytes that are a whole number of frames and hold no complete one are none at all. -/
theorem WholeFrames.eq_nil {U : List UInt8} (h : WholeFrames U) (hno : ¬ HasFrame U) :
    U = [] := by
  obtain ⟨bodies, hb, rfl⟩ := h
  rw [eq_nil_of_not_hasFrame hb hno, frames_nil]

end Csci6780
