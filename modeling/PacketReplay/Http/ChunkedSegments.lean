import PacketReplay.Http.ChunkedDecoder

/-!
# Cutting a chunked body into segments

Feeding a chunked body is meant not to depend on how it arrives cut into
segments. It does: a size line that is completed by a later segment is parsed from
the scratch buffer, but the position to resume from is counted from the start of
that segment. `feed_eq_decode` is what remains true: a run whose calls all resume
behind their size lines ends as decoding the body byte by byte does, so two such
runs over one body cannot be told apart.
-/

namespace PacketReplay

open Lib

namespace ChunkDecoder

open ChunkedProcessor (Observed)

def ended : Verdict ChunkDecoder Observed → Observed
  | .more d => ⟨d.complete, d.data, false⟩
  | .halt o => o

/-- Decode a body byte by byte. -/
def decode (body : Bytes) : Observed := ended (drive step ⟨.sizeLine [], [], false⟩ body)

end ChunkDecoder

namespace ChunkedProcessor

theorem ended_map_decoder (v : Verdict ChunkedProcessor Observed) :
    ChunkDecoder.ended (v.map decoder id) = ended v := by
  cases v <;> rfl

/-- In the run that feeds the segments, every call resumes behind its size lines. -/
def RunResumes (segments : List Bytes) : Prop := Along call CallResumes {} segments

instance (segments : List Bytes) : Decidable (RunResumes segments) :=
  inferInstanceAs (Decidable (Along call CallResumes {} segments))

/-- A run whose calls resume behind their size lines decodes the body. -/
theorem feed_eq_decode {segments : List Bytes} (resumes : RunResumes segments) :
    feed segments = ChunkDecoder.decode segments.flatten := by
  have along : Along call (fun p segment => Sound p ∧ CallResumes p segment) {} segments :=
    Along.with_invariant (fun _ _ s' inv ok answer => inv.process_leaves ok s' answer) Sound.init
      resumes
  have refines := drive_segments (fun _ _ ok => ok.1.process_refines ok.2) along
  rw [feed, ← ended_map_decoder, refines]
  rfl

/-- Every two ways of cutting the body end with the same outcome. -/
def SegmentationIndependent (body : Bytes) : Prop :=
  ∀ c₁ c₂, Cutting body c₁ → Cutting body c₂ → feed c₁ = feed c₂

/-- Two runs over one body end with the same flag, data and exception when all
their calls resume behind their size lines. -/
theorem feed_eq_of_cuttings (body : Bytes) (c₁ c₂ : List Bytes) (cut₁ : Cutting body c₁)
    (cut₂ : Cutting body c₂) (resumes₁ : RunResumes c₁) (resumes₂ : RunResumes c₂) :
    feed c₁ = feed c₂ := by
  rw [feed_eq_decode resumes₁, feed_eq_decode resumes₂, cut₁.1, cut₂.1]

/-- Cuts inside the chunk data and between the CR and LF of a terminator. -/
theorem feed_eq_of_cuttings_hello :
    feed [ascii "5\r\nhello\r\n0\r\n\r\n"] =
      feed [ascii "5\r\nhe", ascii "llo\r", ascii "\n", ascii "0\r\n\r", ascii "\n"] :=
  feed_eq_of_cuttings (ascii "5\r\nhello\r\n0\r\n\r\n") _ _ (by decide) (by decide)
    (by decide +kernel) (by decide +kernel)

/-- A cut behind the digit of the first size line loses a byte of the chunk. -/
theorem not_segmentationIndependent_hello :
    ¬ SegmentationIndependent (ascii "5\r\nhello\r\n0\r\n\r\n") := by
  intro independent
  have same := independent [ascii "5\r\nhello\r\n0\r\n\r\n"]
    [ascii "5", ascii "\r\nhello\r\n0\r\n\r\n"] (by decide) (by decide)
  revert same
  decide +kernel

end ChunkedProcessor

end PacketReplay
