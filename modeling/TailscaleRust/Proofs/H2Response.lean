import TailscaleRust.Proofs.FrameLoops

/-!
# Assembling a response

What `read_response` makes of the frames it reads, as functions of the whole
sequence: the body is what came on the stream, the status the last one that
was found there, and the answers are two window updates for each piece of
data and an acknowledgement for each SETTINGS. Frames of other streams and of
other kinds appear in none of these.
-/

namespace TailscaleRust.Proofs

open TailscaleRust.Lib TailscaleRust.Core TailscaleRust.Core.H2
open TailscaleRust.Core.Transport

/-! ## What a sequence of frames says -/

/-- The frames of one kind on one stream. -/
def onStream (streamId : UInt32) (typ : UInt8) (frs : List H2.Frame) : List H2.Frame :=
  frs.filter fun fr => fr.typ = typ ∧ fr.streamId = streamId

/-- The data of a stream, in order. -/
def bodyOf (streamId : UInt32) (frs : List H2.Frame) : Bytes :=
  (onStream streamId ftData frs).flatMap H2.Frame.payload

/-- The status of the last HEADERS of a stream in which one is found. -/
def statusOf (streamId : UInt32) (frs : List H2.Frame) : Option UInt16 :=
  ((onStream streamId ftHeaders frs).filterMap fun fr => decodeStatus fr.payload).getLast?

/-- The frames that are due in answer to one. -/
def answers (streamId : UInt32) (fr : H2.Frame) : List H2.Frame :=
  if fr.typ = ftData ∧ fr.streamId = streamId ∧ fr.payload ≠ [] then
    [⟨ftWindowUpdate, 0, streamId, be32 (UInt32.ofNat fr.payload.length)⟩,
      ⟨ftWindowUpdate, 0, 0, be32 (UInt32.ofNat fr.payload.length)⟩]
  else if fr.typ = ftSettings ∧ fr.flags &&& flAck = 0 then [⟨ftSettings, flAck, 0, []⟩]
  else []

def frameBytes (fr : H2.Frame) : Bytes := H2.frame fr.typ fr.flags fr.streamId fr.payload

/-- The acknowledgements of SETTINGS among some frames. -/
def settingsAcks (frs : List H2.Frame) : List H2.Frame :=
  frs.filter fun fr => fr.typ = ftSettings ∧ fr.flags = flAck ∧ fr.streamId = 0

/-- The SETTINGS that ask for one. -/
def settingsAsked (frs : List H2.Frame) : List H2.Frame :=
  frs.filter fun fr => fr.typ = ftSettings ∧ fr.flags &&& flAck = 0 ∧ fr.streamId = 0

/-- The credit that window updates give a stream. -/
def credit (streamId : UInt32) (frs : List H2.Frame) : Nat :=
  ((onStream streamId ftWindowUpdate frs).map fun fr => (u32be fr.payload 0).toNat).sum

/-! ## One step -/

/-- What no frame of the sequence is. -/
structure Regular (fr : H2.Frame) : Prop where
  goaway : fr.typ ≠ ftGoaway
  numbered : fr.typ = ftHeaders ∨ fr.typ = ftData → fr.streamId ≠ 0
  settings : fr.typ = ftSettings → fr.streamId = 0

/-- The frame that ends the response. -/
structure Ends (streamId : UInt32) (fr : H2.Frame) : Prop where
  kind : fr.typ = ftHeaders ∨ fr.typ = ftData
  stream : fr.streamId = streamId
  flag : fr.flags &&& flEndStream ≠ 0

instance (fr : H2.Frame) : Decidable (Regular fr) :=
  decidable_of_iff (fr.typ ≠ ftGoaway ∧ (fr.typ = ftHeaders ∨ fr.typ = ftData → fr.streamId ≠ 0) ∧
      (fr.typ = ftSettings → fr.streamId = 0))
    ⟨fun ⟨hg, hn, hs⟩ => ⟨hg, hn, hs⟩, fun h => ⟨h.goaway, h.numbered, h.settings⟩⟩

instance (streamId : UInt32) (fr : H2.Frame) : Decidable (Ends streamId fr) :=
  decidable_of_iff ((fr.typ = ftHeaders ∨ fr.typ = ftData) ∧ fr.streamId = streamId ∧
      fr.flags &&& flEndStream ≠ 0)
    ⟨fun ⟨hk, hs, hf⟩ => ⟨hk, hs, hf⟩, fun h => ⟨h.kind, h.stream, h.flag⟩⟩

/-- The status and the body after a frame. -/
def absorb (streamId : UInt32) (acc : UInt16 × Bytes) (fr : H2.Frame) : UInt16 × Bytes :=
  ((statusOf streamId [fr]).getD acc.1, acc.2 ++ bodyOf streamId [fr])

section Step

variable {streamId : UInt32} {fr : H2.Frame}

theorem onStream_single (typ : UInt8) :
    onStream streamId typ [fr] = if fr.typ = typ ∧ fr.streamId = streamId then [fr] else [] := by
  rw [onStream, List.filter_cons, List.filter_nil]
  simp only [decide_eq_true_eq]

theorem bodyOf_single :
    bodyOf streamId [fr] =
      if fr.typ = ftData ∧ fr.streamId = streamId then fr.payload else [] := by
  rw [bodyOf, onStream_single]
  split
  · rw [List.flatMap_singleton]
  · rw [List.flatMap_nil]

theorem statusOf_single :
    statusOf streamId [fr] =
      if fr.typ = ftHeaders ∧ fr.streamId = streamId then decodeStatus fr.payload else none := by
  rw [statusOf, onStream_single]
  split
  · cases hs : decodeStatus fr.payload with
    | none => simp [hs]
    | some x => simp [hs]
  · rfl

/-- A frame that neither belongs to the stream nor is SETTINGS changes
nothing. -/
theorem responseStep_other (hfr : Regular fr) (hset : fr.typ ≠ ftSettings)
    (hours : ¬((fr.typ = ftHeaders ∨ fr.typ = ftData) ∧ fr.streamId = streamId))
    (acc : UInt16 × Bytes) :
    responseStep streamId acc fr = ([], .more acc) ∧ answers streamId fr = [] ∧
      absorb streamId acc fr = acc := by
  have hhead : ¬(fr.typ = ftHeaders ∧ fr.streamId = streamId) := fun h => hours ⟨.inl h.1, h.2⟩
  have hdata : ¬(fr.typ = ftData ∧ fr.streamId = streamId) := fun h => hours ⟨.inr h.1, h.2⟩
  refine ⟨?_, ?_, ?_⟩
  · rw [responseStep]
    split
    · rfl
    · next hstream =>
        -- on stream zero there is no HEADERS or DATA either
        have hzero : fr.streamId ≠ streamId → fr.streamId = 0 := fun hne =>
          not_not.mp fun hz => hstream ⟨hne, hz⟩
        have hkind : fr.typ ≠ ftHeaders ∧ fr.typ ≠ ftData := by
          refine ⟨fun h => ?_, fun h => ?_⟩
          · exact hfr.numbered (.inl h) (hzero fun he => hhead ⟨h, he⟩)
          · exact hfr.numbered (.inr h) (hzero fun he => hdata ⟨h, he⟩)
        rw [if_neg hkind.1, if_neg hkind.2, if_neg hfr.goaway]
  · rw [answers, if_neg (fun h => hdata ⟨h.1, h.2.1⟩), if_neg (fun h => hset h.1)]
  · rw [absorb, statusOf_single, bodyOf_single, if_neg hhead, if_neg hdata, List.append_nil]
    rfl

/-- A step takes in what the frame says about the stream and gives the
answers, and stops at the end of the response only. -/
theorem responseStep_eq (hfr : Regular fr) (acc : UInt16 × Bytes) :
    responseStep streamId acc fr = ((answers streamId fr).map frameBytes,
      if (fr.typ = ftHeaders ∨ fr.typ = ftData) ∧ fr.streamId = streamId
      then responseEnd fr (absorb streamId acc fr).1 (absorb streamId acc fr).2
      else .more (absorb streamId acc fr)) := by
  by_cases hours : (fr.typ = ftHeaders ∨ fr.typ = ftData) ∧ fr.streamId = streamId
  · obtain ⟨hkind, hstream⟩ := hours
    have hskip : ¬(fr.streamId ≠ streamId ∧ fr.streamId ≠ 0) := fun h => h.1 hstream
    rw [if_pos ⟨hkind, hstream⟩, responseStep, if_neg hskip, absorb, statusOf_single,
      bodyOf_single, answers]
    rcases hkind with hhead | hdata
    · have hon : fr.typ = ftHeaders ∧ fr.streamId = streamId := ⟨hhead, hstream⟩
      have hnd : fr.typ ≠ ftData := by rw [hhead]; decide
      have hnb : ¬(fr.typ = ftData ∧ fr.streamId = streamId) := fun h => hnd h.1
      have hnu : ¬(fr.typ = ftData ∧ fr.streamId = streamId ∧ fr.payload ≠ []) := fun h => hnd h.1
      have hns : ¬(fr.typ = ftSettings ∧ fr.flags &&& flAck = 0) := by
        rw [hhead]
        exact fun h => absurd h.1 (by decide)
      rw [if_pos hhead, if_pos hon, if_neg hnb, if_neg hnu, if_neg hns, List.append_nil]
      rfl
    · have hon : fr.typ = ftData ∧ fr.streamId = streamId := ⟨hdata, hstream⟩
      have hnh : fr.typ ≠ ftHeaders := by rw [hdata]; decide
      have hnt : ¬(fr.typ = ftHeaders ∧ fr.streamId = streamId) := fun h => hnh h.1
      have hns : ¬(fr.typ = ftSettings ∧ fr.flags &&& flAck = 0) := by
        rw [hdata]
        exact fun h => absurd h.1 (by decide)
      rw [if_neg hnh, if_pos hdata, if_neg hnt, if_pos hon]
      by_cases hp : fr.payload ≠ []
      · rw [if_pos hp, if_pos ⟨hdata, hstream, hp⟩]
        rfl
      · rw [if_neg hp, if_neg fun h => hp h.2.2, if_neg hns]
        rfl
  · rw [if_neg hours]
    by_cases hset : fr.typ = ftSettings
    · have hzero := hfr.settings hset
      have hskip : ¬(fr.streamId ≠ streamId ∧ fr.streamId ≠ 0) := fun h => h.2 hzero
      have hnh : fr.typ ≠ ftHeaders := by rw [hset]; decide
      have hnd : fr.typ ≠ ftData := by rw [hset]; decide
      have hnt : ¬(fr.typ = ftHeaders ∧ fr.streamId = streamId) := fun h => hnh h.1
      have hnb : ¬(fr.typ = ftData ∧ fr.streamId = streamId) := fun h => hnd h.1
      have hnu : ¬(fr.typ = ftData ∧ fr.streamId = streamId ∧ fr.payload ≠ []) := fun h => hnd h.1
      rw [responseStep, if_neg hskip, if_neg hnh, if_neg hnd, if_pos hset, absorb,
        statusOf_single, bodyOf_single, if_neg hnt, if_neg hnb, List.append_nil, answers,
        if_neg hnu, settingsAck]
      by_cases hack : fr.flags &&& flAck = 0
      · rw [if_pos hack, if_pos ⟨hset, hack⟩]
        rfl
      · rw [if_neg hack, if_neg fun h => hack h.2]
        rfl
    · obtain ⟨hstep, hans, habs⟩ := responseStep_other hfr hset hours acc
      rw [hstep, hans, habs]
      rfl

theorem responseStep_more (hfr : Regular fr) (hend : ¬Ends streamId fr) (acc : UInt16 × Bytes) :
    (responseStep streamId acc fr).2 = .more (absorb streamId acc fr) := by
  rw [responseStep_eq hfr]
  simp only []
  split
  · next hours =>
      have hflag : ¬fr.flags &&& flEndStream ≠ 0 := fun h => hend ⟨hours.1, hours.2, h⟩
      rw [responseEnd, if_neg hflag]
  · rfl

theorem responseStep_stop (hfr : Regular fr) (hend : Ends streamId fr) (acc : UInt16 × Bytes) :
    (responseStep streamId acc fr).2 =
      .stop (.ok ((absorb streamId acc fr).1, stripWirePrefix (absorb streamId acc fr).2)) := by
  rw [responseStep_eq hfr]
  simp only []
  rw [if_pos ⟨hend.kind, hend.stream⟩, responseEnd, if_pos hend.flag]

end Step

/-! ## The whole sequence -/

section Run

variable {streamId : UInt32} {frs : List H2.Frame}

theorem bodyOf_append (a b : List H2.Frame) :
    bodyOf streamId (a ++ b) = bodyOf streamId a ++ bodyOf streamId b := by
  rw [bodyOf, onStream, List.filter_append, List.flatMap_append]
  rfl

theorem statusOf_append (a b : List H2.Frame) :
    statusOf streamId (a ++ b) = (statusOf streamId b).or (statusOf streamId a) := by
  rw [statusOf, onStream, List.filter_append, List.filterMap_append, List.getLast?_append]
  rfl

theorem foldl_absorb (acc : UInt16 × Bytes) :
    frs.foldl (absorb streamId) acc =
      ((statusOf streamId frs).getD acc.1, acc.2 ++ bodyOf streamId frs) := by
  induction frs generalizing acc with
  | nil =>
      rw [bodyOf, onStream, List.filter_nil, List.flatMap_nil, List.append_nil]
      rfl
  | cons fr frs ih =>
      rw [List.foldl_cons, ih, absorb, List.append_assoc, ← bodyOf_append,
        List.singleton_append, ← List.singleton_append (l := frs), statusOf_append]
      cases statusOf streamId frs with
      | none => rfl
      | some x => rfl

theorem goesOn_absorb (hreg : ∀ fr ∈ frs, Regular fr) (hend : ∀ fr ∈ frs, ¬Ends streamId fr)
    (acc : UInt16 × Bytes) :
    GoesOn (responseStep streamId) acc frs (frs.foldl (absorb streamId) acc) := by
  induction frs generalizing acc with
  | nil => exact .nil
  | cons fr frs ih =>
      refine .cons (responseStep_more (hreg fr List.mem_cons_self) (hend fr List.mem_cons_self) acc)
        (ih (fun x hx => hreg x (List.mem_cons_of_mem fr hx))
          (fun x hx => hend x (List.mem_cons_of_mem fr hx)) _)

theorem sends_answers {last : H2.Frame} (hreg : ∀ fr ∈ frs, Regular fr) (hlast : Regular last)
    (hend : ∀ fr ∈ frs, ¬Ends streamId fr) (hstop : Ends streamId last) (acc : UInt16 × Bytes) :
    (sends (responseStep streamId) acc (frs ++ [last])).flatten =
      ((frs ++ [last]).flatMap (answers streamId)).flatMap frameBytes := by
  induction frs generalizing acc with
  | nil =>
      rw [List.nil_append, sends, responseStep_stop hlast hstop, responseStep_eq hlast]
      simp [List.flatMap_def]
  | cons fr frs ih =>
      have hfr := hreg fr List.mem_cons_self
      rw [List.cons_append, sends, responseStep_more hfr (hend fr List.mem_cons_self),
        responseStep_eq hfr, List.flatMap_cons, List.flatMap_append, List.flatten_append]
      simp only []
      rw [ih (fun x hx => hreg x (List.mem_cons_of_mem fr hx))
        (fun x hx => hend x (List.mem_cons_of_mem fr hx)), ← List.flatMap_def]

end Run

/-! ## What the answers add up to -/

section Totals

variable {streamId : UInt32}

theorem settingsAcks_answers {fr : H2.Frame} (hfr : Regular fr) :
    (settingsAcks (answers streamId fr)).length = (settingsAsked [fr]).length := by
  have hupdate : ftWindowUpdate ≠ ftSettings := by decide
  have hdata : ftData ≠ ftSettings := by decide
  rw [answers]
  split
  · next h => simp [settingsAcks, settingsAsked, hupdate, h.1, hdata]
  · split
    · next h =>
        have hzero := hfr.settings h.1
        simp [settingsAcks, settingsAsked, h.1, h.2, hzero]
    · next h =>
        have hnot : ¬(fr.typ = ftSettings ∧ fr.flags &&& flAck = 0 ∧ fr.streamId = 0) :=
          fun hs => h ⟨hs.1, hs.2.1⟩
        rw [settingsAcks, settingsAsked, List.filter_nil, List.filter_cons,
          if_neg (by simpa using hnot), List.filter_nil]

theorem credit_answers {n : UInt32} (hne : streamId ≠ 0) (hn : n = streamId ∨ n = 0) {fr : H2.Frame}
    (hlen : fr.payload.length < 2 ^ 32) :
    credit n (answers streamId fr) = (bodyOf streamId [fr]).length := by
  have hinc : (u32be (be32 (UInt32.ofNat fr.payload.length)) 0).toNat = fr.payload.length := by
    rw [u32be_of_slice (slice_self (by rw [length_be32])), UInt32.toNat_ofNat']
    omega
  have hzero : (0 : UInt32) ≠ streamId := fun h => hne h.symm
  rw [bodyOf_single, answers]
  split
  · next h =>
      rw [if_pos ⟨h.1, h.2.1⟩]
      rcases hn with rfl | rfl
      · simp [credit, onStream, hzero, hinc]
      · simp [credit, onStream, hne, hinc]
  · next h =>
      have hbody : (if fr.typ = ftData ∧ fr.streamId = streamId then fr.payload else []) = [] := by
        split
        · next hd =>
            exact not_not.mp fun hp => h ⟨hd.1, hd.2, hp⟩
        · rfl
      rw [hbody]
      split
      · have hset : ftSettings ≠ ftWindowUpdate := by decide
        simp [credit, onStream, hset]
      · rfl

theorem settingsAcks_flatMap {frs : List H2.Frame} (hreg : ∀ fr ∈ frs, Regular fr) :
    (settingsAcks (frs.flatMap (answers streamId))).length = (settingsAsked frs).length := by
  induction frs with
  | nil => rfl
  | cons fr frs ih =>
      have hcons : settingsAsked (fr :: frs) = settingsAsked [fr] ++ settingsAsked frs :=
        List.filter_append [fr] frs
      rw [List.flatMap_cons, settingsAcks, List.filter_append, List.length_append, hcons,
        List.length_append, ← ih fun x hx => hreg x (List.mem_cons_of_mem fr hx),
        ← settingsAcks_answers (hreg fr List.mem_cons_self)]
      rfl

theorem credit_flatMap {n : UInt32} (hne : streamId ≠ 0) (hn : n = streamId ∨ n = 0)
    {frs : List H2.Frame} (hlen : ∀ fr ∈ frs, fr.payload.length < 2 ^ 32) :
    credit n (frs.flatMap (answers streamId)) = (bodyOf streamId frs).length := by
  induction frs with
  | nil => rfl
  | cons fr frs ih =>
      have hcredit : credit n (answers streamId fr ++ frs.flatMap (answers streamId)) =
          credit n (answers streamId fr) + credit n (frs.flatMap (answers streamId)) := by
        rw [credit, onStream, List.filter_append, List.map_append, List.sum_append]
        rfl
      rw [List.flatMap_cons, hcredit, credit_answers hne hn (hlen fr List.mem_cons_self),
        ih fun x hx => hlen x (List.mem_cons_of_mem fr hx), ← List.singleton_append (l := frs),
        bodyOf_append, List.length_append]

end Totals

/-! ## The response -/

/-- Whatever comes in between, `read_response` takes the frames up to the end
of its response, returns the data and the status of its stream, acknowledges
the settings once each and gives back as much credit as it used up. -/
theorem readResponse_assembles (C : Crypto) (hC : C.Lawful) (h : H2) (streamId : UInt32)
    (fs : List WireFrame) (last : WireFrame) (q : Bytes)
    (hw : h.conn.stream.writeFails = false)
    (hq : PlainAhead C h ((fs ++ [last]).flatMap WireFrame.bytes ++ q))
    (hreg : ∀ f ∈ fs ++ [last], Regular f.received)
    (hmore : ∀ f ∈ fs, ¬Ends streamId f.received) (hend : Ends streamId last.received) :
    ∃ h' sent, let frs := (fs ++ [last]).map WireFrame.received
      h.readResponse C streamId =
        .ok (((statusOf streamId frs).getD 0, stripWirePrefix (bodyOf streamId frs)), h') ∧
      PlainAhead C h' q ∧ Wrote C h h' (sent.flatMap frameBytes) ∧
      sent = frs.flatMap (answers streamId) ∧
      (settingsAcks sent).length = (settingsAsked frs).length ∧
      credit streamId sent = (bodyOf streamId frs).length ∧
      credit 0 sent = (bodyOf streamId frs).length := by
  have hfrs : (fs ++ [last]).map WireFrame.received =
      fs.map WireFrame.received ++ [last.received] := by
    rw [List.map_append, List.map_singleton]
  have hne : streamId ≠ 0 := by
    rw [← hend.stream]
    exact (hreg last (List.mem_append_right _ List.mem_cons_self)).numbered hend.kind
  have hregs : ∀ fr ∈ fs.map WireFrame.received, Regular fr := by
    intro fr hfr
    obtain ⟨f, hf, rfl⟩ := List.mem_map.mp hfr
    exact hreg f (List.mem_append_left _ hf)
  have hlast : Regular last.received := hreg last (List.mem_append_right _ List.mem_cons_self)
  have hmores : ∀ fr ∈ fs.map WireFrame.received, ¬Ends streamId fr := by
    intro fr hfr
    obtain ⟨f, hf, rfl⟩ := List.mem_map.mp hfr
    exact hmore f hf
  have hlens : ∀ fr ∈ (fs ++ [last]).map WireFrame.received, fr.payload.length < 2 ^ 32 := by
    intro fr hfr
    obtain ⟨f, hf, rfl⟩ := List.mem_map.mp hfr
    exact Nat.lt_trans f.payload_lt (by decide)
  have hfold : absorb streamId ((fs.map WireFrame.received).foldl (absorb streamId) (0, []))
      last.received = ((statusOf streamId ((fs ++ [last]).map WireFrame.received)).getD 0,
        bodyOf streamId ((fs ++ [last]).map WireFrame.received)) :=
    calc absorb streamId ((fs.map WireFrame.received).foldl (absorb streamId) (0, []))
          last.received
        = (fs.map WireFrame.received ++ [last.received]).foldl (absorb streamId) (0, []) :=
          (List.foldl_concat ..).symm
      _ = _ := by rw [← hfrs, foldl_absorb, List.nil_append]
  obtain ⟨h', hloop, hq', hwrote⟩ := frameLoop_frames hC hw hq
    (goesOn_absorb hregs hmores (0, [])) (responseStep_stop hlast hend _)
  refine ⟨h', _, ?_, hq', ?_, rfl, settingsAcks_flatMap ?_, credit_flatMap hne (.inl rfl) hlens,
    credit_flatMap hne (.inr rfl) hlens⟩
  · rw [H2.readResponse, hloop, hfold]
  · rw [hfrs, ← sends_answers hregs hlast hmores hend (0, []), ← hfrs]
    exact hwrote
  · intro fr hfr
    obtain ⟨f, hf, rfl⟩ := List.mem_map.mp hfr
    exact hreg f hf

/-- A session with some plaintext in its buffer and nothing to come. -/
def bufferedSession (rx : Bytes) : H2 where
  conn := { stream := { incoming := [], readFails := false, written := [], writeFails := false }
            rx := [] }
  tr := Noise.Transport.new (Arr.zero 32) (Arr.zero 32)
  rx := rx
  nextStream := 3
  authority := []

theorem bufferedSession_ahead (C : Crypto) (rx : Bytes) :
    PlainAhead C (bufferedSession rx) rx := by
  have hempty : ConnAhead (bufferedSession rx).conn [] :=
    ⟨[], delivers_incoming (by decide) fun c hc => absurd hc List.not_mem_nil, rfl⟩
  obtain ⟨e, he⟩ := readFrame_end hempty
  refine ⟨[], .done (e := e) ?_, (List.append_nil rx).symm⟩
  simp only [H2.source, H2.pullRecord, he]

/-- The last piece of a response on stream one. -/
def lastData : WireFrame where
  typ := ftData
  flags := flEndStream
  streamWord := 1
  payload := [123, 125]
  payload_lt := by decide

theorem readResponse_assembles_small :
    ∃ h' sent, (bufferedSession (emptySettings.bytes ++ lastData.bytes)).readResponse transparent 1
        = .ok ((0, [123, 125]), h') ∧
      (settingsAcks sent).length = 1 ∧ credit 1 sent = 2 := by
  have hq : PlainAhead transparent (bufferedSession (emptySettings.bytes ++ lastData.bytes))
      (([emptySettings] ++ [lastData]).flatMap WireFrame.bytes ++ []) := by
    rw [List.append_nil]
    exact bufferedSession_ahead transparent _
  obtain ⟨h', sent, hresp, -, -, -, hacks, hcredit, -⟩ := readResponse_assembles transparent
    transparent_lawful (bufferedSession (emptySettings.bytes ++ lastData.bytes)) 1
    [emptySettings] lastData [] rfl hq (by decide) (by decide) (by decide)
  exact ⟨h', sent, hresp, hacks, hcredit⟩

end TailscaleRust.Proofs
