import UndoLog.Dev.Messages

/-!
# Bodies in chunks

The handler reassembles every encoded body, up to its ceiling, and reads no further.
-/

namespace UndoLog.Dev.Connection

open Text Text.Stream

/-- The chunks hold the data, or as much of it as was there when it passed the ceiling. -/
def Kept (data : Bytes) (chunks : Chunks) : Prop :=
  if chunks.overflow then
    maxBodyBytes < data.length ∧ chunks.parts <+: data ∧ chunks.parts.length ≤ maxBodyBytes
  else chunks.parts = data ∧ chunks.total = data.length ∧ data.length ≤ maxBodyBytes

theorem Kept.add {data : Bytes} {chunks : Chunks} (h : Kept data chunks) (more : Bytes) :
    Kept (data ++ more) (chunks.add more) := by
  unfold Kept at h
  split at h
  · next hover =>
    obtain ⟨hlarge, hprefix, hlength⟩ := h
    rw [Chunks.add, if_pos (.inl hover), Kept, if_pos rfl, List.length_append]
    exact ⟨by omega, hprefix.trans (List.prefix_append data more), hlength⟩
  · next hover =>
    obtain ⟨hparts, htotal, hlength⟩ := h
    by_cases hlarge : chunks.total + more.length > maxBodyBytes
    · rw [Chunks.add, if_pos (.inr hlarge), Kept, if_pos rfl, List.length_append, hparts]
      exact ⟨by omega, List.prefix_append data more, hlength⟩
    · rw [Chunks.add, if_neg (not_or.mpr ⟨hover, hlarge⟩), Kept, if_neg hover,
        List.length_append, hparts]
      simp only [htotal]
      exact ⟨trivial, by omega, by omega⟩

theorem Kept.addAll {data : Bytes} {chunks : Chunks} (h : Kept data chunks) (more : List Bytes) :
    Kept (data ++ more.flatten) (more.foldl Chunks.add chunks) := by
  induction more generalizing data chunks with
  | nil => simpa using h
  | cons first rest ih => simpa using ih (h.add first)

theorem kept_nil : Kept [] ⟨[], 0, false⟩ := by
  simp [Kept]

/-- An encoded body is read up to its end. It is returned as a whole if it is not larger than the
ceiling, and is said to be too large otherwise. -/
theorem readChunked_reassembles (chunks : List Chunk) (last : SizeLine 0) (trailers : List Trailer)
    (hfits : (Payload.chunked chunks last trailers).Fits) (rest : Bytes) :
    ∃ out, readChunked ((Payload.chunked chunks last trailers).bytes ++ rest) = (.ok out, rest) ∧
      ((chunks.map Chunk.data).flatten.length ≤ maxBodyBytes →
        out.parts = (chunks.map Chunk.data).flatten ∧ out.overflow = false) ∧
      (maxBodyBytes < (chunks.map Chunk.data).flatten.length →
        out.overflow = true ∧ out.parts.length ≤ maxBodyBytes) := by
  refine ⟨_, readChunked_bytes hfits rest, ?_⟩
  have hkept := kept_nil.addAll (chunks.map Chunk.data)
  rw [List.nil_append] at hkept
  unfold Kept at hkept
  split at hkept
  · next hover =>
    exact ⟨fun hsmall => by omega, fun _ => ⟨hover, hkept.2.2⟩⟩
  · next hover =>
    exact ⟨fun _ => ⟨hkept.1, by simpa using hover⟩, fun hlarge => by omega⟩

/-- A body of five bytes in two chunks, with an extension and a trailer field. -/
def twoChunks : Payload :=
  .chunked [⟨[97, 98, 99], by decide, [51], [59, 120], ⟨by decide, List.all_eq_true.mp rfl⟩, rfl,
    .inr ⟨[], [120], rfl, by simp⟩, by decide⟩,
    ⟨[100, 101], by decide, [50], [], ⟨by decide, List.all_eq_true.mp rfl⟩, rfl, .inl rfl,
      by decide⟩]
    ⟨[48], [], ⟨by decide, List.all_eq_true.mp rfl⟩, rfl, .inl rfl, by decide⟩
      [⟨[120], by decide, by decide⟩]

/-- It is reassembled, and what follows it is left. -/
theorem readChunked_reassembles_two : twoChunks.Fits ∧ ∃ out,
    readChunked (twoChunks.bytes ++ [71]) = (.ok out, [71]) ∧
      out.parts = [97, 98, 99, 100, 101] ∧ out.overflow = false := by
  have hfits : twoChunks.Fits := by
    simp [twoChunks, Payload.Fits, SizeLine.bytes, Trailer.bytes, maxChunkLineBytes]
  obtain ⟨out, hread, hsmall, -⟩ := readChunked_reassembles _ _ _ hfits [71]
  exact ⟨hfits, out, hread, hsmall (by decide)⟩

end UndoLog.Dev.Connection
