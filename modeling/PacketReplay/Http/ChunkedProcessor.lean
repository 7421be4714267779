import PacketReplay.Lib.Search
import PacketReplay.Lib.Segments
import PacketReplay.Lib.CLibrary

/-!
# The chunked body processor

`HttpResponseProcessor::ChunkedProcessor::process`, iteration by iteration. The
unread part `data[nprocessed..data_len)` of the segment is the list the loop runs
on, and `tmpBuf` is `tmp_buf_[0..tmp_buf_size_)`: the bytes behind it are never
read, since a NUL is stored there before the buffer is searched. Segment lengths
and `nprocessed` are natural numbers, as no `int` of the loop overflows on a
segment shorter than `2 ^ 31 - 1026` bytes.
-/

namespace PacketReplay

open Lib

def crlf : Bytes := [cr, lf]

theorem crlf_ne_nil : crlf ≠ [] := List.cons_ne_nil _ _

/-- `TMPSIZ`. -/
def tmpSiz : Nat := 1024

structure ChunkedProcessor : Type where
  chunkSize : Int := -1
  chunkRead : Int := 0
  chunkEndCharCount : Nat := 0
  tmpBuf : Bytes := []
  data : Bytes := []
  complete : Bool := false
  deriving DecidableEq, Repr

namespace ChunkedProcessor

/-- What a call or an iteration ends with: its result and the object it leaves. -/
abbrev Result := Outcome Bool × ChunkedProcessor

/-- The scratch buffer after the copy of the size phase. -/
def fill (p : ChunkedProcessor) (data : Bytes) : Bytes :=
  p.tmpBuf ++ data.take (min data.length (tmpSiz - p.tmpBuf.length))

/-- `strstr(tmp_buf_, "\r\n")`, as an index. -/
def lineEnd (buf : Bytes) : Option Nat := find crlf (cstr buf)

/-- The message of the terminator errors, `"..." + data[nprocessed]`: the byte is
added to the pointer, so it skips characters of the text. Past its 30 characters
the text is whatever follows in memory. -/
def terminatorError (c : UInt8) : Exn :=
  .runtimeError ((ascii "invalid chunk terminator char ").drop c.toNat)

/-- One iteration of the loop of `process`, at the byte `c`. The last two branches
of the terminator and data phases are ones no reachable object takes: the loop
would not advance, or the copied range would be reversed. -/
def processStep (p : ChunkedProcessor) (c : UInt8) (rest : Bytes) :
    BlockStep ChunkedProcessor Result :=
  if p.chunkSize < 0 then
    let buf := p.fill (c :: rest)
    if (lineEnd buf).isSome then
      let number := strtoul 16 (cstr buf)
      let p := { p with tmpBuf := buf, chunkSize := toInt32 number.1 }
      if number.2 = 0 then
        .exit (.error (.thrown (.runtimeError (ascii "invalid chunk size in " ++ cstr buf))), p)
      else .next p (number.2 + 2)
    else if buf.length = tmpSiz then
      .exit (.error (.thrown (.runtimeError (ascii "failed to find chunk size"))),
        { p with tmpBuf := buf })
    else .exit (.ok false, { p with tmpBuf := buf })
  else if p.chunkRead = p.chunkSize then
    if p.chunkEndCharCount = 0 then
      if c = cr then .next { p with chunkEndCharCount := 1 } 1
      else .exit (.error (.thrown (terminatorError c)), p)
    else if p.chunkEndCharCount = 1 then
      if c = lf then
        if p.chunkSize = 0 then .exit (.ok true, { p with complete := true })
        else
          .next { p with chunkSize := -1, chunkRead := 0, tmpBuf := [], chunkEndCharCount := 0 } 1
      else .exit (.error (.thrown (terminatorError c)), p)
    else .exit (.error (.undefined .noProgress), p)
  else
    let copyLen : Int := min ((c :: rest).length : Int) (p.chunkSize - p.chunkRead)
    if copyLen < 0 then .exit (.error (.undefined .reversedRange), p)
    else
      .next { p with
        data := p.data ++ (c :: rest).take copyLen.toNat
        chunkRead := p.chunkRead + copyLen } copyLen.toNat

def process (p : ChunkedProcessor) (data : Bytes) : Result :=
  blockLoop processStep (fun p => (.ok false, p)) p data

/-- What can be told from a processor after its last call. -/
structure Observed : Type where
  complete : Bool
  data : Bytes
  threw : Bool
  deriving DecidableEq, Repr

def observe (p : ChunkedProcessor) (threw : Bool) : Observed := ⟨p.complete, p.data, threw⟩

/-- A call as a step of a run that stops at the first `true` or exception. -/
def verdict : Result → Verdict ChunkedProcessor Observed
  | (.ok false, p) => .more p
  | (.ok true, p) => .halt (p.observe false)
  | (.error _, p) => .halt (p.observe true)

def call (p : ChunkedProcessor) (segment : Bytes) : Verdict ChunkedProcessor Observed :=
  verdict (p.process segment)

/-- How a run ended. -/
def ended : Verdict ChunkedProcessor Observed → Observed
  | .more p => p.observe false
  | .halt o => o

/-- Feed the segments in order to a fresh processor, up to the first call that
returns true or throws. -/
def feed (segments : List Bytes) : Observed := ended (drive call {} segments)

end ChunkedProcessor

end PacketReplay
