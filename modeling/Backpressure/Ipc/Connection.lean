import Backpressure.Ipc.Frame

/-!
# Two ends of a stream

`Connection::send` and `Connection::receive` of `frame.cpp` over a stream that delivers every byte
in order. The loops `send_all` and `recv_all` take whatever part the stream gives them at a call; a
call that would block is tried again. The receiving end has two such loops, one for the header and
one for the payload; it may be told that the stream has ended, and by then the writer may have
stopped anywhere. Both ends are connected, and no other error of a socket occurs.
-/

namespace Backpressure

/-- The most that one call of `::send` or `::recv` is asked for. -/
def kSocketChunk : Nat := 0x40000000

/-- Where `Connection::receive` stands. -/
inductive Receiving
  /-- In the loop for the header. -/
  | header (got : Bytes)
  /-- In the loop for the payload, behind a header that was accepted. -/
  | payload (header : Bytes) (type : MessageType) (flags : UInt32) (length : Nat) (got : Bytes)
  deriving DecidableEq, Repr

namespace Receiving

/-- The bytes that the receiving end has taken for the frame. -/
def held : Receiving → Bytes
  | header got => got
  | payload front _ _ _ got => front ++ got

/-- What the loop still asks for. -/
def wants : Receiving → Nat
  | header got => kFrameHeaderBytes - got.length
  | payload _ _ _ length got => length - got.length

/-- The status of a loop that is told that the stream has ended. -/
def closed : Receiving → Status
  | header got => .error .truncatedInput "peer closed" got.length
  | payload _ _ _ _ got => .error .truncatedInput "peer closed" got.length

/-- `receive` behind the loop for the header. -/
def headerRead (maxPayload : Nat) (header : Bytes) : Receiving × Option (Result Frame) :=
  match decodeFrameHeader header maxPayload with
  | .error st => (.header [], some (.error st))
  | .ok (type, flags, length) =>
    if 0 < length then (.payload header type flags length [], none)
    else (.header [], some (checkFrame header type flags []))

/-- One call of `::recv` that gives some bytes; the result when `receive` returns, and the state of
the next call of it. -/
def take (maxPayload : Nat) (bytes : Bytes) : Receiving → Receiving × Option (Result Frame)
  | header got =>
    if (got ++ bytes).length < kFrameHeaderBytes then (.header (got ++ bytes), none)
    else headerRead maxPayload (got ++ bytes)
  | payload front type flags length got =>
    if (got ++ bytes).length < length then (.payload front type flags length (got ++ bytes), none)
    else (.header [], some (checkFrame front type flags (got ++ bytes)))

end Receiving

/-- Both ends and what is between them. -/
structure Wire where
  /-- What `send_all` still has to write of its frame. -/
  sending : Bytes := []
  /-- The frames behind that one. -/
  frames : List Frame
  /-- Everything that the stream has taken. -/
  written : Bytes := []
  /-- What it has not given out. -/
  stream : Bytes := []
  /-- Nothing is written any more. -/
  ended : Bool := false
  receiving : Receiving := .header []
  /-- What the calls of `receive` have returned. -/
  received : List (Result Frame) := []
  deriving DecidableEq

namespace Wire

/-- The receiving end after a call of `::recv`. -/
def give (maxPayload : Nat) (n : Nat) (w : Wire) : Wire :=
  let (receiving, result) := w.receiving.take maxPayload (w.stream.take n)
  { w with stream := w.stream.drop n, receiving, received := w.received ++ result.toList }

inductive Step (maxPayload : Nat) : Wire → Wire → Prop
  /-- `Connection::send` of the next frame. -/
  | begin {w : Wire} {frame : Frame} {rest : List Frame} {bytes : Bytes} :
      w.ended = false → w.sending = [] → w.frames = frame :: rest →
      encodeFrame frame maxPayload = .ok bytes →
      Step maxPayload w { w with sending := bytes, frames := rest }
  /-- `::send` takes `n` bytes. -/
  | send {w : Wire} {n : Nat} : w.ended = false → 0 < n → n ≤ min kSocketChunk w.sending.length →
      Step maxPayload w { w with
        sending := w.sending.drop n
        written := w.written ++ w.sending.take n
        stream := w.stream ++ w.sending.take n }
  /-- `::recv` gives `n` bytes. -/
  | recv {w : Wire} {n : Nat} : 0 < n → n ≤ min kSocketChunk w.receiving.wants →
      n ≤ w.stream.length → Step maxPayload w (w.give maxPayload n)
  /-- Either end is told to try again. -/
  | wouldBlock {w : Wire} : Step maxPayload w w
  /-- The writer stops, at a frame or inside one. -/
  | finish {w : Wire} : Step maxPayload w { w with ended := true }
  /-- `::recv` gives nothing more. -/
  | closed {w : Wire} : w.ended = true → w.stream = [] → Step maxPayload w { w with
      receiving := .header []
      received := w.received ++ [.error w.receiving.closed] }

/-- A state that is reached when the frames are sent one after the other. -/
inductive Reached (maxPayload : Nat) (frames : List Frame) : Wire → Prop
  | start : Reached maxPayload frames { frames }
  | step {w w' : Wire} : Reached maxPayload frames w → Step maxPayload w w' →
      Reached maxPayload frames w'

/-- The bytes of a frame. -/
def bytesOf (frame : Frame) : Bytes := frameHeader frame ++ frame.payload

/-- A frame that `send` and `receive` let through. -/
structure Sendable (maxPayload : Nat) (frame : Frame) : Prop where
  type : frame.type ≠ .count
  payload : frame.payload.length ≤ maxPayload
  length : frame.payload.length < 256 ^ 4

variable {maxPayload n : Nat} {frames : List Frame} {frame : Frame} {w w' : Wire}

theorem Sendable.encode (h : Sendable maxPayload frame) :
    encodeFrame frame maxPayload = .ok (bytesOf frame) := by
  rw [encodeFrame, if_neg h.type, if_neg (not_lt.mpr h.payload)]
  rfl

theorem Sendable.decode (h : Sendable maxPayload frame) :
    decodeFrame (bytesOf frame) maxPayload = .ok frame :=
  decodeFrame_frameHeader h.type h.payload h.length

theorem length_bytesOf : (bytesOf frame).length = kFrameHeaderBytes + frame.payload.length := by
  rw [bytesOf, List.length_append, length_frameHeader]

/-- Where the receiving end stands in front of the bytes of `frames`. -/
inductive Inside : List Frame → Receiving → Prop
  | header {frames : List Frame} {got : Bytes} : got.length < kFrameHeaderBytes →
      Inside frames (.header got)
  | payload {frame : Frame} {rest : List Frame} {got : Bytes} :
      got.length < frame.payload.length → Inside (frame :: rest)
        (.payload (frameHeader frame) frame.type frame.flags frame.payload.length got)

theorem Inside.wants {r : Receiving} (h : Inside frames r) : 0 < r.wants := by
  cases h with
  | header hgot => exact Nat.sub_pos_of_lt hgot
  | payload hgot => exact Nat.sub_pos_of_lt hgot

/-- What a call of `::recv` comes to in front of the bytes of the frames: some more bytes are held,
or the first frame is complete and returned. -/
inductive Took (frames : List Frame) (held : Bytes) : Receiving × Option (Result Frame) → Prop
  | more {r : Receiving} : Inside frames r → r.held = held → Took frames held (r, none)
  | whole {frame : Frame} {rest : List Frame} : frames = frame :: rest → held = bytesOf frame →
      Took frames held (.header [], some (.ok frame))

/-- The first twenty bytes are the header of the first frame. -/
theorem front_eq {front rest : Bytes} (hfront : front.length = kFrameHeaderBytes)
    (hbytes : front ++ rest = frames.flatMap bytesOf) :
    ∃ frame tail, frames = frame :: tail ∧ front = frameHeader frame := by
  cases frames with
  | nil =>
    have hlength := congrArg List.length hbytes
    rw [List.length_append, hfront, List.flatMap_nil, List.length_nil, kFrameHeaderBytes] at hlength
    omega
  | cons frame tail =>
    refine ⟨frame, tail, rfl, ?_⟩
    rw [List.flatMap_cons, bytesOf, List.append_assoc] at hbytes
    exact (List.append_inj hbytes (hfront.trans length_frameHeader.symm)).1

theorem headerRead_took {front rest : Bytes}
    (hsendable : ∀ frame ∈ frames, Sendable maxPayload frame)
    (hfront : front.length = kFrameHeaderBytes) (hbytes : front ++ rest = frames.flatMap bytesOf) :
    Took frames front (Receiving.headerRead maxPayload front) := by
  obtain ⟨frame, tail, rfl, rfl⟩ := front_eq hfront hbytes
  have hframe := hsendable frame List.mem_cons_self
  have hdecode := decodeFrameHeader_frameHeader hframe.type hframe.payload hframe.length
  unfold Receiving.headerRead
  rw [hdecode]
  dsimp only
  by_cases hpayload : 0 < frame.payload.length
  · rw [if_pos hpayload]
    exact .more (.payload hpayload) (List.append_nil _)
  · have hnil : frame.payload = [] := List.length_eq_zero_iff.mp (by omega)
    have hcheck := checkFrame_frameHeader frame []
    rw [List.append_nil, hnil] at hcheck
    rw [if_neg hpayload, hcheck]
    refine .whole rfl ?_
    rw [bytesOf, hnil, List.append_nil]

theorem take_took {r : Receiving} {bytes rest : Bytes} (h : Inside frames r)
    (hsendable : ∀ frame ∈ frames, Sendable maxPayload frame) (hwants : bytes.length ≤ r.wants)
    (hbytes : r.held ++ bytes ++ rest = frames.flatMap bytesOf) :
    Took frames (r.held ++ bytes) (r.take maxPayload bytes) := by
  cases h with
  | @header _ got hgot =>
    rw [Receiving.wants] at hwants
    unfold Receiving.take
    dsimp only
    split
    case isTrue hmore => exact .more (.header hmore) rfl
    case isFalse hfull =>
      have hlength := @List.length_append _ got bytes
      exact headerRead_took hsendable (show (got ++ bytes).length = kFrameHeaderBytes by omega) hbytes
  | @payload frame tail got hgot =>
    rw [Receiving.wants] at hwants
    have hlength := @List.length_append _ got bytes
    unfold Receiving.take
    dsimp only
    split
    case isTrue hmore =>
      refine .more (.payload hmore) ?_
      rw [Receiving.held, Receiving.held, List.append_assoc]
    case isFalse hfull =>
      rw [Receiving.held, List.flatMap_cons, bytesOf, List.append_assoc, List.append_assoc,
        List.append_assoc] at hbytes
      have hrest := List.append_cancel_left hbytes
      rw [← List.append_assoc] at hrest
      have hpayload : got ++ bytes = frame.payload := (List.append_inj hrest (by omega)).1
      have hcheck := checkFrame_frameHeader frame []
      rw [List.append_nil] at hcheck
      rw [hpayload, hcheck]
      refine .whole rfl ?_
      rw [Receiving.held, List.append_assoc, hpayload, bytesOf]

/-! ## The invariant -/

/-- What holds between the two ends: `done` frames have been returned, `lost` is what the receiving
end held when it was told that the stream had ended. -/
structure Inv (maxPayload : Nat) (frames : List Frame) (w : Wire) (done : Nat) (lost : Bytes)
    (errors : List (Result Frame)) : Prop where
  done_le : done ≤ frames.length
  sent : w.written ++ w.sending ++ w.frames.flatMap bytesOf = frames.flatMap bytesOf
  rest : ∀ frame ∈ w.frames, Sendable maxPayload frame
  taken : w.written =
    (frames.take done).flatMap bytesOf ++ (lost ++ (w.receiving.held ++ w.stream))
  received : w.received = (frames.take done).map .ok ++ errors
  refused : ∀ r ∈ errors, ∃ st, r = .error st
  inside : Inside (frames.drop done) w.receiving
  /-- The bytes that are held or were lost are not all of a frame. -/
  short : ∀ frame rest, frames.drop done = frame :: rest →
    (lost ++ w.receiving.held).length < (bytesOf frame).length
  open_ : errors = [] → lost = []
  drained : errors ≠ [] → w.ended = true ∧ w.stream = [] ∧ w.receiving = .header []

variable {done : Nat} {lost : Bytes} {errors : List (Result Frame)}

theorem inv_start (hsendable : ∀ frame ∈ frames, Sendable maxPayload frame) :
    Inv maxPayload frames { frames } 0 [] [] where
  done_le := Nat.zero_le _
  sent := rfl
  rest := hsendable
  taken := rfl
  received := rfl
  refused := by simp
  inside := .header (by decide)
  short frame _ _ := by
    show 0 < (bytesOf frame).length
    rw [length_bytesOf]
    exact Nat.add_pos_left (by decide) _
  open_ _ := rfl
  drained h := absurd rfl h

theorem Inside.short {r : Receiving} {tail : List Frame} (h : Inside (frame :: tail) r) :
    r.held.length < (bytesOf frame).length := by
  rw [length_bytesOf]
  cases h with
  | header hgot =>
    rw [Receiving.held]
    omega
  | payload hgot =>
    rw [Receiving.held, List.length_append, length_frameHeader]
    omega

/-- One more frame has been returned. -/
theorem Inv.deliver {tail : List Frame} {stream : Bytes}
    (h : Inv maxPayload frames w done [] []) (hrest : frames.drop done = frame :: tail)
    (htaken : w.receiving.held ++ w.stream = bytesOf frame ++ stream) :
    Inv maxPayload frames
      { w with stream, receiving := .header [], received := w.received ++ [.ok frame] }
      (done + 1) [] [] := by
  have hlt : done < frames.length := by
    by_contra hge
    rw [List.drop_eq_nil_of_le (not_lt.mp hge)] at hrest
    cases hrest
  have hget : frames[done] = frame := by
    rw [List.drop_eq_getElem_cons hlt] at hrest
    exact (List.cons.inj hrest).1
  have htake : frames.take (done + 1) = frames.take done ++ [frame] := by
    rw [List.take_succ_eq_append_getElem hlt, hget]
  refine ⟨hlt, h.sent, h.rest, ?_, ?_, h.refused, .header (by decide), ?_, fun _ => rfl,
    fun hne => absurd rfl hne⟩
  · rw [h.taken, htaken, htake]
    simp [Receiving.held]
  · rw [h.received, htake]
    simp
  · intro next _ _
    show 0 < (bytesOf next).length
    rw [length_bytesOf]
    exact Nat.add_pos_left (by decide) _

theorem Inv.give (h : Inv maxPayload frames w done lost errors)
    (hsendable : ∀ frame ∈ frames, Sendable maxPayload frame) (hpos : 0 < n)
    (hwants : n ≤ min kSocketChunk w.receiving.wants) (hstream : n ≤ w.stream.length) :
    ∃ done', Inv maxPayload frames (w.give maxPayload n) done' lost errors := by
  have hopen : errors = [] := by
    by_contra hne
    obtain ⟨-, hnil, -⟩ := h.drained hne
    rw [hnil, List.length_nil] at hstream
    omega
  obtain rfl := h.open_ hopen
  subst hopen
  -- what has been written behind the frames that were returned is a part of what follows them
  have hbytes : w.receiving.held ++ w.stream.take n ++
      (w.stream.drop n ++ (w.sending ++ w.frames.flatMap bytesOf)) =
      (frames.drop done).flatMap bytesOf := by
    have hall := h.sent
    have hsplit : frames.flatMap bytesOf =
        (frames.take done).flatMap bytesOf ++ (frames.drop done).flatMap bytesOf := by
      rw [← List.flatMap_append, List.take_append_drop]
    rw [h.taken, List.nil_append, hsplit] at hall
    simp only [List.append_assoc] at hall
    have hrest := List.append_cancel_left hall
    rw [← hrest, List.append_assoc, ← List.append_assoc (w.stream.take n), List.take_append_drop]
  have htook := take_took h.inside (fun f hf => hsendable f (List.mem_of_mem_drop hf))
    ((List.length_take_le n _).trans (hwants.trans (min_le_right _ _))) hbytes
  unfold Wire.give
  revert htook
  generalize w.receiving.take maxPayload (w.stream.take n) = r
  intro htook
  cases htook with
  | @more r hinside hheld =>
    refine ⟨done, h.done_le, h.sent, h.rest, ?_, ?_, h.refused, hinside, ?_, fun _ => rfl,
      fun hne => absurd rfl hne⟩
    · rw [h.taken, List.nil_append, List.nil_append, hheld, List.append_assoc,
        List.take_append_drop]
    · show w.received ++ [] = _
      rw [List.append_nil]
      exact h.received
    · intro frame tail hdrop
      rw [hdrop] at hinside
      exact hinside.short
  | @whole frame tail hdrop hheld =>
    refine ⟨done + 1, h.deliver hdrop ?_⟩
    rw [← hheld, List.append_assoc, List.take_append_drop]

theorem Inv.step (h : Inv maxPayload frames w done lost errors)
    (hsendable : ∀ frame ∈ frames, Sendable maxPayload frame) (hstep : Step maxPayload w w') :
    ∃ done' lost' errors', Inv maxPayload frames w' done' lost' errors' := by
  cases hstep with
  | @begin frame rest bytes hopen hsending hframes hencode =>
    have hframe := h.rest frame (by rw [hframes]; exact List.mem_cons_self)
    rw [hframe.encode] at hencode
    cases hencode
    refine ⟨done, lost, errors, { h with sent := ?_, rest := ?_ }⟩
    · have hsent := h.sent
      rw [hsending, hframes, List.append_nil, List.flatMap_cons, ← List.append_assoc] at hsent
      exact hsent
    · intro f hf
      exact h.rest f (by rw [hframes]; exact List.mem_cons_of_mem _ hf)
  | @send n hopen hpos hn =>
    refine ⟨done, lost, errors, { h with sent := ?_, taken := ?_, drained := ?_ }⟩
    · have hsent := h.sent
      rw [← hsent]
      show w.written ++ w.sending.take n ++ w.sending.drop n ++ _ = _
      rw [List.append_assoc w.written, List.take_append_drop]
    · show w.written ++ w.sending.take n = _
      rw [h.taken]
      simp only [List.append_assoc]
    · intro hne
      have hended := (h.drained hne).1
      rw [hopen] at hended
      cases hended
  | recv hpos hwants hstream =>
    obtain ⟨done', hinv⟩ := h.give hsendable hpos hwants hstream
    exact ⟨done', lost, errors, hinv⟩
  | wouldBlock => exact ⟨done, lost, errors, h⟩
  | finish =>
    exact ⟨done, lost, errors, { h with drained := fun hne => ⟨rfl, (h.drained hne).2⟩ }⟩
  | closed hended hstream =>
    have htaken := h.taken
    rw [hstream, List.append_nil] at htaken
    refine ⟨done, lost ++ w.receiving.held, errors ++ [.error w.receiving.closed],
      { h with
        taken := ?_, received := ?_, refused := ?_, inside := .header (by decide), short := ?_
        open_ := fun hnil => absurd hnil (by simp), drained := fun _ => ⟨hended, hstream, rfl⟩ }⟩
    · show w.written = _
      rw [htaken, hstream]
      simp [Receiving.held]
    · show w.received ++ _ = _
      rw [h.received, List.append_assoc]
    · intro r hr
      rcases List.mem_append.mp hr with hr | hr
      · exact h.refused r hr
      · exact ⟨_, List.mem_singleton.mp hr⟩
    · intro frame tail hdrop
      rw [Receiving.held, List.append_nil]
      exact h.short frame tail hdrop

/-- Every reached state keeps the invariant. -/
theorem Reached.inv (hsendable : ∀ frame ∈ frames, Sendable maxPayload frame)
    (h : Reached maxPayload frames w) : ∃ done lost errors, Inv maxPayload frames w done lost errors := by
  induction h with
  | start => exact ⟨0, [], [], inv_start hsendable⟩
  | step _ hstep ih =>
    obtain ⟨done, lost, errors, hinv⟩ := ih
    exact hinv.step hsendable hstep

/-! ## Progress -/

/-- What is still to be done before everything is delivered. -/
def left (w : Wire) : Nat :=
  2 * (w.sending ++ w.frames.flatMap bytesOf).length + w.stream.length + w.frames.length +
    if w.ended then 0 else 1

/-- A step that is not a retry brings the end nearer, or returns an error after the end. -/
theorem step_left (h : Step maxPayload w w') : w' = w ∨ w'.left < w.left ∨
    w.ended = true ∧ ∃ st, w'.received = w.received ++ [.error st] := by
  cases h with
  | @begin frame rest bytes hopen hsending hframes hencode =>
    obtain ⟨rfl, -, -⟩ := length_encodeFrame hencode
    refine .inr (.inl ?_)
    unfold left
    rw [hsending, hframes, List.flatMap_cons, List.nil_append, bytesOf]
    simp only [List.length_cons]
    omega
  | @send n hopen hpos hn =>
    refine .inr (.inl ?_)
    have hn := hn.trans (min_le_right _ _)
    unfold left
    simp only [List.length_append, List.length_drop, List.length_take_of_le hn]
    omega
  | @recv n hpos hwants hstream =>
    refine .inr (.inl ?_)
    unfold left Wire.give
    simp only [List.length_drop]
    omega
  | wouldBlock => exact .inl rfl
  | finish =>
    cases hended : w.ended with
    | true =>
      refine .inl ?_
      cases w
      cases hended
      rfl
    | false =>
      refine .inr (.inl ?_)
      unfold left
      rw [hended]
      simp
  | closed hended _ => exact .inr (.inr ⟨hended, _, rfl⟩)

theorem Inv.recv_step (h : Inv maxPayload frames w done lost errors) (hstream : w.stream ≠ []) :
    ∃ w', Step maxPayload w w' ∧ w'.ended = w.ended ∧ w'.left < w.left := by
  have hpos := List.length_pos_iff.mpr hstream
  have hone : 1 ≤ min kSocketChunk w.receiving.wants := le_min (by decide) h.inside.wants
  refine ⟨_, .recv Nat.one_pos hone hpos, rfl, ?_⟩
  unfold left Wire.give
  simp only [List.length_drop]
  omega

/-- As long as a frame is missing and the writer goes on, something can be done. -/
theorem Inv.progress (h : Inv maxPayload frames w done lost errors) (hopen : w.ended = false)
    (hdone : done < frames.length) :
    ∃ w', Step maxPayload w w' ∧ w'.ended = false ∧ w'.left < w.left := by
  by_cases hstream : w.stream = []
  · cases hsending : w.sending with
    | cons b rest =>
      have hpos : 1 ≤ min kSocketChunk w.sending.length := by
        rw [hsending]
        exact le_min (by decide) (Nat.succ_pos _)
      refine ⟨_, .send hopen Nat.one_pos hpos, hopen, ?_⟩
      unfold left
      rw [hsending]
      simp only [List.length_append, List.length_drop, List.length_cons, List.take_succ_cons,
        List.take_zero, List.length_nil]
      omega
    | nil =>
      cases hframes : w.frames with
      | cons frame rest =>
        have hframe := h.rest frame (by rw [hframes]; exact List.mem_cons_self)
        refine ⟨_, .begin hopen hsending hframes hframe.encode, hopen, ?_⟩
        unfold left
        rw [hsending, hframes, List.flatMap_cons, List.nil_append]
        simp only [List.length_cons]
        omega
      | nil =>
        -- everything was written and read, so that the next frame would be complete
        exfalso
        have hsent := h.sent
        have htaken := h.taken
        have hshort := h.short frames[done] (frames.drop (done + 1)) (List.drop_eq_getElem_cons hdone)
        rw [hsending, hframes, List.flatMap_nil, List.append_nil, List.append_nil] at hsent
        have hsplit : frames.flatMap bytesOf =
            (frames.take done).flatMap bytesOf ++ (bytesOf frames[done] ++
              (frames.drop (done + 1)).flatMap bytesOf) := by
          rw [← List.flatMap_cons, ← List.drop_eq_getElem_cons hdone, ← List.flatMap_append,
            List.take_append_drop]
        rw [hstream, List.append_nil] at htaken
        rw [htaken, hsplit] at hsent
        have hlength := congrArg List.length (List.append_cancel_left hsent)
        simp only [List.length_append] at hlength hshort
        omega
  · obtain ⟨w', hstep, hended, hleft⟩ := h.recv_step hstream
    exact ⟨w', hstep, hended.trans hopen, hleft⟩

/-- As many of the frames as there are whole ones at the front of the bytes. -/
def Contains (frames : List Frame) (bytes : Bytes) (k : Nat) : Prop :=
  (frames.take k).flatMap bytesOf <+: bytes ∧
    ∀ m ≤ frames.length, (frames.take m).flatMap bytesOf <+: bytes → m ≤ k

/-- Once everything that was written has been read, every whole frame of it has been returned. -/
theorem Inv.contains (h : Inv maxPayload frames w done lost errors) (hstream : w.stream = []) :
    Contains frames w.written done := by
  have htaken := h.taken
  rw [hstream, List.append_nil] at htaken
  refine ⟨⟨_, htaken.symm⟩, fun m hm hprefix => ?_⟩
  by_contra hgt
  have hlt : done < frames.length := by omega
  have hshort := h.short frames[done] (frames.drop (done + 1)) (List.drop_eq_getElem_cons hlt)
  have htake : frames.take (done + 1) = frames.take done ++ [frames[done]] :=
    List.take_succ_eq_append_getElem hlt
  have hmono : (frames.take (done + 1)).flatMap bytesOf <+: (frames.take m).flatMap bytesOf := by
    have hsplit : frames.take m = frames.take (done + 1) ++ (frames.take m).drop (done + 1) := by
      conv_lhs => rw [← List.take_append_drop (done + 1) (frames.take m)]
      rw [List.take_take, min_eq_left (by omega)]
    rw [hsplit, List.flatMap_append]
    exact List.prefix_append _ _
  have hlength := (hmono.trans hprefix).length_le
  rw [htaken, htake, List.flatMap_append, List.flatMap_cons, List.flatMap_nil, List.append_nil]
    at hlength
  simp only [List.length_append] at hlength hshort
  omega

/-- However the stream splits what is written, the calls of `receive` return the frames in their
order, each as it is decoded from its bytes, and behind them only errors, which begin where the
stream has ended and all its whole frames have been returned. Until then a part of the work can
always be done, and every step that is not a retry does some. -/
theorem framing_survives (hmax : maxPayload ≤ 2 ^ 32 - 1)
    (hframes : ∀ frame ∈ frames, frame.type ≠ .count ∧ frame.payload.length ≤ maxPayload)
    (h : Reached maxPayload frames w) :
    (∀ frame ∈ frames, ∃ bytes, encodeFrame frame maxPayload = .ok bytes ∧
      decodeFrame bytes maxPayload = .ok frame) ∧
    (∃ k errors, k ≤ frames.length ∧ w.received = (frames.take k).map .ok ++ errors ∧
      (∀ r ∈ errors, ∃ st, r = .error st) ∧
      (errors ≠ [] → w.ended = true ∧ w.stream = []) ∧
      (w.stream = [] → Contains frames w.written k) ∧
      (w.ended = false → k < frames.length →
        ∃ w', Step maxPayload w w' ∧ w'.ended = false ∧ w'.left < w.left) ∧
      (w.stream ≠ [] → ∃ w', Step maxPayload w w' ∧ w'.ended = w.ended ∧ w'.left < w.left)) ∧
    ∀ w', Step maxPayload w w' → w' = w ∨ w'.left < w.left ∨
      w.ended = true ∧ ∃ st, w'.received = w.received ++ [.error st] := by
  have hsendable : ∀ frame ∈ frames, Sendable maxPayload frame := by
    intro frame hframe
    obtain ⟨htype, hpayload⟩ := hframes frame hframe
    exact ⟨htype, hpayload, by omega⟩
  obtain ⟨done, lost, errors, hinv⟩ := h.inv hsendable
  refine ⟨?_, ⟨done, errors, hinv.done_le, hinv.received, hinv.refused, ?_, hinv.contains,
    hinv.progress, hinv.recv_step⟩, fun w' => step_left⟩
  · intro frame hframe
    have hframe := hsendable frame hframe
    exact ⟨bytesOf frame, hframe.encode, hframe.decode⟩
  · intro hne
    obtain ⟨hended, hstream, -⟩ := hinv.drained hne
    exact ⟨hended, hstream⟩

def publishFrame : Frame := { type := .publish, flags := 3, payload := [1, 2, 254, 255] }

/-- A publish that is written in two pieces and read in three, with a heartbeat behind it. -/
theorem split_frames_survive : ∃ w,
    Reached kMaxFramePayload [publishFrame, { type := .heartbeat }] w ∧
    w.received = [.ok publishFrame, .ok { type := .heartbeat }] ∧ w.ended = false ∧
    ∀ w', Step kMaxFramePayload w w' → w' = w ∨ w'.left < w.left ∨
      w.ended = true ∧ ∃ st, w'.received = w.received ++ [.error st] := by
  have hbegin := Reached.start.step (@Step.begin kMaxFramePayload
    { frames := [publishFrame, { type := .heartbeat }] } publishFrame [{ type := .heartbeat }] _
    rfl rfl rfl rfl)
  have hsend := hbegin.step (@Step.send kMaxFramePayload _ 7 rfl (by decide) (by decide))
  have hrecv := hsend.step (@Step.recv kMaxFramePayload _ 5 (by decide) (by decide) (by decide))
  have hretry := hrecv.step .wouldBlock
  have hsend' := hretry.step (@Step.send kMaxFramePayload _ 17 rfl (by decide) (by decide))
  have hrecv' := hsend'.step (@Step.recv kMaxFramePayload _ 15 (by decide) (by decide) (by decide))
  have hbegin' := hrecv'.step (.begin rfl rfl rfl rfl)
  have hsend'' := hbegin'.step (@Step.send kMaxFramePayload _ 20 rfl (by decide) (by decide))
  have hrecv'' := hsend''.step (@Step.recv kMaxFramePayload _ 4 (by decide) (by decide) (by decide))
  have hlast := hrecv''.step (@Step.recv kMaxFramePayload _ 20 (by decide) (by decide) (by decide))
  exact ⟨_, hlast, by decide +kernel, rfl, (framing_survives (by decide) (by decide) hlast).2.2⟩

end Wire

end Backpressure
