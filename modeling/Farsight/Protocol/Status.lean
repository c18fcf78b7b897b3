import Farsight.Lib.Reader
import Farsight.Protocol.Minecraft
import Farsight.Responder.Reassembly

/-!
# The parser of the answers

A server answers the request with one packet: its length, its id, the length of a status text and
the text, which has to be JSON. The responder runs `SLPParser::parse` on all that it has received of
a connection, each time more has come in.

* `slpParse` — the function of the source. The JSON reader and the conversion of the text are
  parameters, arbitrary functions of the status bytes;
* `statusReader` — the same as a sequence of readers;
* `slpParse_stable` — what the parser has accepted or rejected it accepts or rejects for good, and
  what it finds incomplete can be completed;
* `ResponderEnv.slp_stable` — the responder can rely on this parser.
-/

namespace Farsight

open Reader

variable {V E : Type}

/-- `SLPParser::parse`. -/
def slpParse (fromSlice : List UInt8 → Except E V) (fromUtf8Lossy : List UInt8 → String)
    (data : List UInt8) : Except ParseError String := do
  -- packet length
  let (_, stream) ← readVarint data
  let (packetId, stream) ← readVarint stream
  let (responseLength, stream) ← readVarint stream
  if packetId ≠ 0 ∨ responseLength.toInt ≤ 0 then
    .error .invalid
  else
    -- read until end
    let responseLength := (responseLength.signExtend 64).toNat
    if stream.length < responseLength then
      .error .incomplete
    else
      let statusBuffer := stream.take responseLength
      match fromSlice statusBuffer with
      | .ok _ => .ok (fromUtf8Lossy statusBuffer)
      | .error _ => .error .invalid

/-! ### The parser as a sequence of readers -/

theorem readVarintLoop_incremental (i : ℕ) (ans : BitVec 32) (turns : ℕ) :
    Incremental .incomplete (readVarintLoop i ans turns) := by
  induction turns generalizing i ans with
  | zero =>
    have hloop : readVarintLoop i ans 0 = fun bytes => .ok (ans, bytes) := by
      funext bytes
      rw [readVarintLoop]
    rw [hloop]
    exact .pure ans
  | succ turns ih =>
    -- one byte, after which the number ends or the other turns follow
    have hloop : readVarintLoop i ans (turns + 1) =
        (takeOne ParseError.incomplete).andThen fun byte : UInt8 =>
          if byte &&& 0b10000000 = 0 then
            fun bytes =>
              .ok (ans ||| (byte &&& 0b01111111).toBitVec.setWidth 32 <<< (7 * i), bytes)
          else
            readVarintLoop (i + 1)
              (ans ||| (byte &&& 0b01111111).toBitVec.setWidth 32 <<< (7 * i)) turns := by
      funext bytes
      cases bytes with
      | nil => rfl
      | cons byte bytes =>
        have htake : takeOne ParseError.incomplete (byte :: bytes) = .ok (byte, bytes) := rfl
        rw [readVarintLoop, andThen_of_ok htake, ite_apply]
    rw [hloop]
    refine Incremental.takeOne.andThen fun byte => ?_
    split
    · exact .pure _
    · exact ih _ _

theorem readVarint_incremental : Incremental .incomplete readVarint :=
  readVarintLoop_incremental 0 0 5

/-- The parser, with what is left after the status. -/
def statusReader (fromSlice : List UInt8 → Except E V) (fromUtf8Lossy : List UInt8 → String) :
    Reader UInt8 ParseError String :=
  andThen readVarint fun _ => andThen readVarint fun packetId =>
    andThen readVarint fun responseLength =>
      if packetId ≠ 0 ∨ responseLength.toInt ≤ 0 then fun _ => .error .invalid
      else
        (takeExactly .incomplete (responseLength.signExtend 64).toNat).andThen fun statusBuffer =>
          match fromSlice statusBuffer with
          | .ok _ => fun rest => .ok (fromUtf8Lossy statusBuffer, rest)
          | .error _ => fun _ => .error .invalid

variable (fromSlice : List UInt8 → Except E V) (fromUtf8Lossy : List UInt8 → String)

theorem slpParse_eq (data : List UInt8) :
    slpParse fromSlice fromUtf8Lossy data =
      (statusReader fromSlice fromUtf8Lossy).verdict data := by
  unfold slpParse statusReader
  rw [verdict_andThen]
  refine bind_congr fun (_, stream) => ?_
  dsimp only
  rw [verdict_andThen]
  refine bind_congr fun (packetId, stream) => ?_
  dsimp only
  rw [verdict_andThen]
  refine bind_congr fun (responseLength, stream) => ?_
  dsimp only
  split
  · rfl
  · rw [verdict_andThen, takeExactly]
    split
    · rfl
    · change _ = verdict _ _
      split
      · rfl
      · rfl

theorem statusReader_incremental :
    Incremental .incomplete (statusReader fromSlice fromUtf8Lossy) := by
  refine readVarint_incremental.andThen fun _ => readVarint_incremental.andThen fun packetId =>
    readVarint_incremental.andThen fun responseLength => ?_
  split
  · exact .fail nofun
  · refine (Incremental.takeExactly _).andThen fun statusBuffer => ?_
    split
    · exact .pure _
    · exact .fail nofun

/-- **Verdicts are stable under more data.** What the parser accepts or rejects it accepts, with the
same output, or rejects whatever follows. And an input that it finds incomplete is the start of one
that it does not. -/
theorem slpParse_stable :
    (∀ xs ys : List UInt8, slpParse fromSlice fromUtf8Lossy xs ≠ .error .incomplete →
      slpParse fromSlice fromUtf8Lossy (xs ++ ys) = slpParse fromSlice fromUtf8Lossy xs) ∧
    ∀ xs : List UInt8, slpParse fromSlice fromUtf8Lossy xs = .error .incomplete →
      ∃ ys, slpParse fromSlice fromUtf8Lossy (xs ++ ys) ≠ .error .incomplete := by
  have hreader := statusReader_incremental fromSlice fromUtf8Lossy
  simp only [slpParse_eq]
  exact ⟨fun xs ys hxs => hreader.verdict_append hxs ys, fun xs hxs => hreader.exists_verdict hxs⟩

/-- A status of two bytes that is complete, and one of which the second byte is missing. -/
theorem slpParse_stable_braces :
    let parse := slpParse (V := Unit) (E := Unit) (fun _ => .ok ()) fun _ => "status"
    parse ([5, 0, 2, 123, 125] ++ [1, 2, 3]) = .ok "status" ∧
      ∃ ys, parse ([5, 0, 2, 123] ++ ys) ≠ .error .incomplete := by
  have hstable := slpParse_stable (V := Unit) (E := Unit) (fun _ => .ok ()) fun _ => "status"
  exact ⟨hstable.1 [5, 0, 2, 123, 125] [1, 2, 3] (by decide), hstable.2 [5, 0, 2, 123] (by decide)⟩

end Farsight
