import Claudebase.Bus.Answers

/-!
# Every request has its answer

The frames that are written are those on the channel up to the first that is too large. So the
requests are answered one after another, each with its own id, for as long as nothing on the
channel exceeds the frame limit.
-/

namespace Claudebase.Bus
open Claudebase.Base

variable {parse : List UInt8 → Option Json} {listing : List Json} {remote : Bool}
  {body : List UInt8} {outcome : Outcome} {acts : List LineAct}

/-! ### One answer -/

theorem callReply_ne_pong (inbound : Json) (n : Nat) :
    callReply remote inbound outcome ≠ .pong n := by
  unfold callReply
  dsimp only
  split
  · exact Reply.noConfusion
  · split
    · exact Reply.noConfusion
    · split
      · cases outcome with
        | result payload => exact Reply.noConfusion
        | error code message => exact Reply.noConfusion
      · exact Reply.noConfusion

/-- Only a frame that asks for nothing is answered with `pong`. -/
theorem reply_ne_pong (h : Asks parse body) (n : Nat) :
    reply parse remote body outcome ≠ .pong n := by
  unfold reply
  cases hparse : parse body with
  | none => exact Reply.noConfusion
  | some inbound =>
    dsimp only
    rcases h inbound hparse with hlist | hcall
    · rw [if_pos hlist]
      exact Reply.noConfusion
    · have hne : methodOf inbound ≠ "tools/list" := by
        rw [hcall]
        decide
      rw [if_neg hne, if_pos hcall]
      exact callReply_ne_pong inbound n

/-- An answer carries an id and names no method. -/
theorem get?_frame (listing : List Json) (id : Json) {r : Reply} (h : ∀ n, r ≠ .pong n) :
    (r.frame listing id).get? "method" = none ∧ (r.frame listing id).get? "id" = some id := by
  cases r with
  | tools => exact ⟨rfl, rfl⟩
  | text s => exact ⟨rfl, rfl⟩
  | error code message => exact ⟨rfl, rfl⟩
  | pong n => exact absurd rfl (h n)

theorem answered_respond (h : Asks parse body) (frames : List Json) :
    answered (respond parse listing remote body outcome :: frames) =
      some (echoId parse body) :: answered frames := by
  have hreply : ∀ n, reply parse remote body outcome ≠ .pong n := reply_ne_pong h
  obtain ⟨hmethod, hid⟩ := get?_frame listing (echoId parse body) hreply
  have hanswer : isAnswer (respond parse listing remote body outcome) = true := by
    unfold isAnswer respond
    rw [hmethod]
    rfl
  unfold answered
  rw [List.filter_cons_of_pos hanswer, List.map_cons]
  exact congrArg (· :: answered frames) hid

theorem answered_notification (params : Json) (frames : List Json) :
    answered (notification params :: frames) = answered frames := by
  have hmethod : (notification params).get? "method" =
      some (.str "notifications/claude/channel") := rfl
  have hanswer : ¬ isAnswer (notification params) = true := by
    unfold isAnswer
    rw [hmethod]
    exact Bool.false_ne_true
  unfold answered
  rw [List.filter_cons_of_neg hanswer]

theorem answered_append (frames frames' : List Json) :
    answered (frames ++ frames') = answered frames ++ answered frames' := by
  unfold answered
  rw [List.filter_append, List.map_append]

/-- What goes on the channel answers the requests. -/
theorem answered_sent (h : ∀ body ∈ requests acts, Asks parse body) :
    answered (sent parse listing remote acts) = due parse acts := by
  induction acts with
  | nil => rfl
  | cons act acts ih =>
    cases act with
    | request body outcome =>
      obtain ⟨hbody, hacts⟩ := List.forall_mem_cons.mp h
      rw [sent, answered_respond hbody, ih hacts]
      rfl
    | notify params =>
      rw [sent, answered_notification]
      exact ih h
    | write => exact ih h

/-! ### What is written -/

/-- A frame that can be written. -/
def writable (frame : Json) : Bool := frame.toBytes.length ≤ maxFrameSize

theorem writable_respond : writable (respond parse listing remote body outcome) = true ↔
    (LineAct.request body outcome).Fits parse listing remote := by
  unfold writable respond LineAct.Fits
  rw [length_frame, decide_eq_true_iff]

theorem writable_notification {params : Json} : writable (notification params) = true ↔
    (LineAct.notify params).Fits parse listing remote := by
  unfold writable LineAct.Fits
  rw [length_notification, decide_eq_true_iff]

/-- The frames so far are those on the wire and those on the channel; or a frame was too large, and
those before it are on the wire. -/
structure Line.Delivers (s : Line) (frames : List Json) : Prop where
  reading : s.reading = true
  written : ∀ frame ∈ s.wire, writable frame = true
  rest : ∃ waiting, frames = s.wire ++ waiting ∧ (s.outbound = some waiting ∨
    s.outbound = none ∧ ∃ frame ∈ waiting.head?, writable frame = false)

theorem Line.Delivers.send {s : Line} {frames : List Json} (h : s.Delivers frames) (frame : Json) :
    (s.send frame).Delivers (frames ++ [frame]) := by
  obtain ⟨waiting, hframes, hrest⟩ := h.rest
  refine ⟨h.reading, h.written, waiting ++ [frame], ?_, ?_⟩
  · rw [hframes, List.append_assoc]
    rfl
  · rcases hrest with hopen | ⟨hclosed, large, hhead, hlarge⟩
    · refine .inl ?_
      unfold Line.send
      rw [hopen]
      rfl
    · refine .inr ⟨?_, large, ?_, hlarge⟩
      · unfold Line.send
        rw [hclosed]
        rfl
      · rw [List.head?_append, Option.mem_def, Option.mem_def.mp hhead]
        rfl

theorem Line.Delivers.write {s : Line} {frames : List Json} (h : s.Delivers frames) :
    s.write.Delivers frames := by
  obtain ⟨waiting, hframes, hrest⟩ := h.rest
  unfold Line.write
  rcases hrest with hopen | hclosed
  · rw [hopen]
    cases waiting with
    | nil => exact ⟨h.reading, h.written, [], hframes, .inl hopen⟩
    | cons frame waiting =>
      dsimp only
      split
      · next hlarge =>
        have hnot : writable frame = false := decide_eq_false (Nat.not_le.mpr hlarge)
        exact ⟨h.reading, h.written, frame :: waiting, hframes, .inr ⟨rfl, frame, rfl, hnot⟩⟩
      · next hsmall =>
        have hwritable : writable frame = true := decide_eq_true (Nat.not_lt.mp hsmall)
        refine ⟨h.reading, ?_, waiting, ?_, .inl rfl⟩
        · intro frame' hframe'
          rcases List.mem_append.mp hframe' with hold | hnew
          · exact h.written frame' hold
          · rw [List.mem_singleton.mp hnew]
            exact hwritable
        · rw [hframes, List.append_assoc]
          rfl
  · rw [hclosed.1]
    exact ⟨h.reading, h.written, waiting, hframes, .inr hclosed⟩

/-- One step. -/
theorem Line.Delivers.next {s : Line} {frames : List Json} (h : s.Delivers frames) {act : LineAct}
    (hact : ∀ body ∈ requests [act], body.length ≤ maxFrameSize) :
    (s.next parse listing remote act).Delivers (frames ++ sent parse listing remote [act]) := by
  cases act with
  | request body outcome =>
    have hreading : ¬ s.reading = false := by
      rw [h.reading]
      exact Bool.noConfusion
    have hsmall : ¬ maxFrameSize < body.length := Nat.not_lt.mpr (hact body List.mem_cons_self)
    unfold Line.next
    dsimp only
    rw [if_neg hreading, if_neg hsmall]
    exact h.send _
  | notify params => exact h.send _
  | write =>
    rw [sent, sent, List.append_nil]
    exact h.write

theorem sent_append (acts acts' : List LineAct) : sent parse listing remote (acts ++ acts') =
    sent parse listing remote acts ++ sent parse listing remote acts' := by
  induction acts with
  | nil => rfl
  | cons act acts ih =>
    cases act with
    | request body outcome => exact congrArg (_ :: ·) ih
    | notify params => exact congrArg (_ :: ·) ih
    | write => exact ih

theorem requests_append (acts acts' : List LineAct) :
    requests (acts ++ acts') = requests acts ++ requests acts' := by
  induction acts with
  | nil => rfl
  | cons act acts ih =>
    cases act with
    | request body outcome => exact congrArg (body :: ·) ih
    | notify params => exact ih
    | write => exact ih

/-- In every run. -/
theorem delivers_run (h : ∀ body ∈ requests acts, body.length ≤ maxFrameSize) :
    (run (Line.next parse listing remote) .accepted acts).Delivers
      (sent parse listing remote acts) := by
  induction acts using List.reverseRecOn with
  | nil => exact ⟨rfl, List.forall_mem_nil _, [], rfl, .inl rfl⟩
  | append_singleton acts act ih =>
    rw [requests_append] at h
    have hdelivers := ih fun body hbody ↦ h body (List.mem_append_left _ hbody)
    rw [run_concat, sent_append]
    exact hdelivers.next fun body hbody ↦ h body (List.mem_append_right _ hbody)

/-- Once the writer has nothing left to do, the frames up to the first that is too large have been
written. -/
theorem Line.Delivers.wire_eq {s : Line} {frames : List Json} (h : s.Delivers frames)
    (hidle : s.outbound = some [] ∨ s.outbound = none) : s.wire = frames.takeWhile writable := by
  obtain ⟨waiting, hframes, hrest⟩ := h.rest
  have hstop : waiting.takeWhile writable = [] := by
    rcases hrest with hopen | ⟨-, frame, hhead, hlarge⟩
    · rcases hidle with hidle | hidle
      · rw [Option.some.inj (hopen.symm.trans hidle)]
        rfl
      · cases hopen.symm.trans hidle
    · obtain ⟨rest, rfl⟩ := List.head?_eq_some_iff.mp hhead
      rw [List.takeWhile_cons, hlarge]
      rfl
  rw [hframes, List.takeWhile_append_of_pos h.written, hstop, List.append_nil]

/-! ### When every request is answered -/

/-- Nothing too large goes on the channel as an answer or ahead of one. -/
def FitUntilLast (parse : List UInt8 → Option Json) (listing : List Json) (remote : Bool)
    (acts : List LineAct) : Prop :=
  ∀ first act rest, acts = first ++ act :: rest → requests (act :: rest) ≠ [] →
    act.Fits parse listing remote

theorem fitUntilLast_cons {act : LineAct} :
    FitUntilLast parse listing remote (act :: acts) ↔
      (requests (act :: acts) ≠ [] → act.Fits parse listing remote) ∧
        FitUntilLast parse listing remote acts := by
  constructor
  · intro h
    refine ⟨h [] act acts rfl, fun first act' rest hacts ↦ ?_⟩
    exact h (act :: first) act' rest (congrArg (act :: ·) hacts)
  · rintro ⟨hact, hacts⟩ first act' rest hsplit
    cases first with
    | nil =>
      cases hsplit
      exact hact
    | cons act'' first =>
      cases hsplit
      exact hacts first act' rest rfl

theorem fitUntilLast_of_no_request (h : requests acts = []) :
    FitUntilLast parse listing remote acts := by
  rintro first act rest rfl hne
  rw [requests_append] at h
  exact absurd (List.append_eq_nil_iff.mp h).2 hne

theorem due_eq_nil : due parse acts = [] ↔ requests acts = [] := by
  unfold due
  exact List.map_eq_nil_iff

/-- The frames up to the first that is too large answer all requests exactly when it comes after
the last answer. -/
theorem answered_takeWhile_iff (h : ∀ body ∈ requests acts, Asks parse body) :
    answered ((sent parse listing remote acts).takeWhile writable) = due parse acts ↔
      FitUntilLast parse listing remote acts := by
  induction acts with
  | nil => exact iff_of_true rfl (fitUntilLast_of_no_request rfl)
  | cons act acts ih =>
    rw [fitUntilLast_cons]
    cases act with
    | request body outcome =>
      obtain ⟨hbody, hacts⟩ := List.forall_mem_cons.mp h
      have hdue : due parse (.request body outcome :: acts) =
          some (echoId parse body) :: due parse acts := rfl
      have hasks : requests (.request body outcome :: acts) ≠ [] := List.cons_ne_nil _ _
      rw [sent, hdue, imp_iff_right hasks, ← writable_respond]
      by_cases hfits : writable (respond parse listing remote body outcome) = true
      · rw [List.takeWhile_cons_of_pos hfits, answered_respond hbody, List.cons_inj_right,
          ih hacts, and_iff_right hfits]
      · rw [List.takeWhile_cons_of_neg hfits]
        exact iff_of_false (List.cons_ne_nil _ _).symm fun hboth ↦ hfits hboth.1
    | notify params =>
      have hdue : due parse (.notify params :: acts) = due parse acts := rfl
      have hsame : requests (.notify params :: acts) = requests acts := rfl
      rw [sent, hdue, hsame, ← writable_notification]
      by_cases hfits : writable (notification params) = true
      · rw [List.takeWhile_cons_of_pos hfits, answered_notification, ih h,
          and_iff_right fun _ ↦ hfits]
      · rw [List.takeWhile_cons_of_neg hfits]
        constructor
        · intro hnone
          have hrequests : requests acts = [] := due_eq_nil.mp hnone.symm
          exact ⟨fun hne ↦ absurd hrequests hne, fitUntilLast_of_no_request hrequests⟩
        · rintro ⟨himp, -⟩
          by_contra hne
          exact hfits (himp fun hrequests ↦ hne (due_eq_nil.mpr hrequests).symm)
    | write =>
      have hfits : requests (.write :: acts) ≠ [] → LineAct.write.Fits parse listing remote :=
        fun _ ↦ trivial
      rw [and_iff_right hfits]
      exact ih h

/-- Answers come in the order of the requests, each with its request's id; and every request has its
answer if and only if nothing too large goes on the channel as an answer or ahead of one. -/
theorem answered_iff_fits (acts : List LineAct)
    (hrequests : ∀ body ∈ requests acts, body.length ≤ maxFrameSize ∧ Asks parse body) :
    let s := run (Line.next parse listing remote) .accepted acts
    answered s.wire <+: due parse acts ∧
      (s.outbound = some [] ∨ s.outbound = none →
        (answered s.wire = due parse acts ↔ FitUntilLast parse listing remote acts)) := by
  intro s
  have hasks : ∀ body ∈ requests acts, Asks parse body := fun body hbody ↦ (hrequests body hbody).2
  have hdelivers : s.Delivers (sent parse listing remote acts) :=
    delivers_run fun body hbody ↦ (hrequests body hbody).1
  constructor
  · obtain ⟨waiting, hframes, -⟩ := hdelivers.rest
    have hsent : answered (sent parse listing remote acts) = due parse acts := answered_sent hasks
    rw [← hsent, hframes, answered_append]
    exact List.prefix_append _ _
  · intro hidle
    rw [hdelivers.wire_eq hidle]
    exact answered_takeWhile_iff hasks

/-- A body that is no JSON is answered, and a notification comes in between. -/
theorem answered_iff_fits_plain :
    answered (run (Line.next (fun _ ↦ none) [] false) .accepted
      [.request [63] (.result .null), .notify .null, .write, .write]).wire = [some .null] := by
  have hasks : ∀ body ∈ requests [.request [63] (.result .null), .notify .null, .write, .write],
      body.length ≤ maxFrameSize ∧ Asks (fun _ ↦ none) body := by
    intro body hbody
    rw [List.mem_singleton.mp hbody]
    exact ⟨by decide, fun inbound hparse ↦ by cases hparse⟩
  have hfits : FitUntilLast (fun _ ↦ none) [] false
      [.request [63] (.result .null), .notify .null, .write, .write] := by
    rw [fitUntilLast_cons, fitUntilLast_cons]
    refine ⟨fun _ ↦ ?_, fun _ ↦ ?_, fitUntilLast_of_no_request rfl⟩
    · show (reply (fun _ ↦ none) false [63] (.result .null)).length [] .null ≤ maxFrameSize
      decide
    · show 67 + Json.null.size ≤ maxFrameSize
      decide
  have hanswer : ¬ maxFrameSize <
      (respond (fun _ ↦ none) [] false [63] (.result .null)).toBytes.length := by
    rw [respond, length_frame]
    decide
  have hnotification : ¬ maxFrameSize < (notification .null).toBytes.length := by
    rw [length_notification]
    decide
  have hidle : (run (Line.next (fun _ ↦ none) [] false) .accepted
      [.request [63] (.result .null), .notify .null, .write, .write]).outbound = some [] := by
    have hlimit : maxFrameSize ≠ 0 := by decide
    simp [run, Line.next, Line.send, Line.write, Line.accepted, hanswer, hnotification, hlimit]
  exact ((answered_iff_fits _ hasks).2 (.inl hidle)).mpr hfits

/-! ### An answer that is too large -/

/-- A call of `chat_list`. -/
def listCall : Json :=
  .obj [("id", .int 1), ("jsonrpc", .str "2.0"), ("method", .str "tools/call"),
    ("params", .obj [("arguments", .obj [("thread", .str "t")]), ("name", .str "chat_list")])]

/-- One stored message of `n` letters. -/
def longBacklog (n : Nat) : Json :=
  .obj [("messages", .arr [.obj [("content", .str (String.ofList (List.replicate n 'a'))),
    ("created_at", .int 0), ("from_agent", .str "mira"), ("id", .str "m"), ("reply_to", .null),
    ("thread_id", .str "t")]])]

theorem le_size_longBacklog (n : Nat) : n ≤ (longBacklog n).size := by
  have hcontent := byteCount_le_jsonQuote (List.replicate n 'a')
  have hletters := length_le_byteCount (List.replicate n 'a')
  have hchars : (String.ofList (List.replicate n 'a')).toList = List.replicate n 'a' :=
    String.toList_ofList
  rw [List.length_replicate] at hletters
  rw [longBacklog, Json.size_obj_one, Json.size_arr_one, Json.size_obj_cons, Json.size_str, hchars]
  omega

/-- A call whose result is too large is not answered, and neither is what comes after it. -/
theorem answered_large : ¬ ∀ (parse : List UInt8 → Option Json) (listing : List Json)
    (remote : Bool) (acts : List LineAct),
    (∀ body ∈ requests acts, body.length ≤ maxFrameSize ∧ Asks parse body) →
    let s := run (Line.next parse listing remote) .accepted acts
    s.outbound = some [] ∨ s.outbound = none → answered s.wire = due parse acts := by
  intro hclaim
  have hreply : ∀ body payload, reply (fun _ ↦ some listCall) false body (.result payload) =
      .text payload.render := fun _ _ ↦ rfl
  have hlarge : maxFrameSize < (respond (fun _ ↦ some listCall) [] false listCall.toBytes
      (.result (longBacklog maxFrameSize))).toBytes.length := by
    have hbacklog := le_size_longBacklog maxFrameSize
    have hquoted := byteCount_le_jsonQuote (longBacklog maxFrameSize).render
    rw [respond, length_frame, hreply, Reply.length]
    rw [Json.size] at hbacklog
    omega
  have hsmall : listCall.toBytes.length ≤ maxFrameSize := by
    rw [Json.length_toBytes]
    decide
  have hasks : ∀ body ∈ requests [.request listCall.toBytes (.result (longBacklog maxFrameSize)),
      .write], body.length ≤ maxFrameSize ∧ Asks (fun _ ↦ some listCall) body := by
    intro body hbody
    rw [List.mem_singleton.mp hbody]
    refine ⟨hsmall, fun inbound hparse ↦ .inr ?_⟩
    cases hparse
    rfl
  have hmute : run (Line.next (fun _ ↦ some listCall) [] false) .accepted
      [.request listCall.toBytes (.result (longBacklog maxFrameSize)), .write] =
        ⟨true, none, []⟩ := by
    simp [run, Line.next, Line.send, Line.write, Line.accepted, hlarge, Nat.not_lt.mpr hsmall]
  have hanswered := hclaim (fun _ ↦ some listCall) [] false _ hasks
  rw [hmute] at hanswered
  cases hanswered (.inr rfl)

end Claudebase.Bus
