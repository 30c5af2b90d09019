import K64.ServiceMessages
import Mathlib.Data.List.TakeWhile

/-! # Requests and their replies

A message keeps its slot until its own call returns, whatever is called, taken and answered
meanwhile. -/
namespace Services

open UserMode ByteCodec

variable {s t : State} {d : Dispatch} {e : Event} {i j : ℕ}

theorem setMsg_self (s : State) (i : ℕ) (msg : Msg) : (s.setMsg i msg).msgs i = msg := by
  unfold State.setMsg
  exact Function.update_self ..

theorem setMsg_other (s : State) {i j : ℕ} (msg : Msg) (h : j ≠ i) :
    (s.setMsg i msg).msgs j = s.msgs j := by
  unfold State.setMsg
  exact Function.update_of_ne h ..

def Dispatch.message (d : Dispatch) (requestId : UInt64) : Msg :=
  d.fill { Msg.clear with state := .pending, requestId := requestId }

inductive Begins (s : State) (d : Dispatch) : Option Result × State → Prop where
  | refused (status : ℤ) (h : status = errInval ∨ status = errNoent ∨ status = errBusy) :
      Begins s d (some ⟨status, d.out, 0⟩, s)
  | placed (i : ℕ) (t : State) (free : (s.msgs i).state = .empty)
      (slot : t.msgs i = d.message s.nextRequestId)
      (others : ∀ j, j ≠ i → t.msgs j = s.msgs j) (calls : t.calls = ⟨i, d.out⟩ :: s.calls) :
      Begins s d (none, t)

theorem dispatchBegin_cases (s : State) (d : Dispatch) : Begins s d (dispatchBegin s d) := by
  unfold dispatchBegin
  split
  · exact .refused errInval (Or.inl rfl)
  split
  · exact .refused errNoent (Or.inr (Or.inl rfl))
  unfold serviceMsgAlloc
  cases hfind : (List.range maxServiceMessages).find? fun i => (s.msgs i).state == .empty with
  | none => exact .refused errBusy (Or.inr (Or.inr rfl))
  | some i =>
    have hfree := List.find?_some hfind
    rw [beq_iff_eq] at hfree
    refine .placed i _ hfree ?_ (fun j hj => ?_) rfl
    · refine (setMsg_self _ i _).trans ?_
      exact congrArg d.fill (setMsg_self s i _)
    · exact (setMsg_other _ _ hj).trans (setMsg_other s _ hj)

inductive Receives (s : State) (r : RecvRequest) : ℤ × Option Received × State → Prop where
  | nothing (status : ℤ) (h : status ≠ 0) : Receives s r (status, none, s)
  | taken (name : List UInt8) (i : ℕ) (received : Received) (asked : recvName r = .ok name)
      (slot : pendingSlot s name = some i) (id : received.requestId = (s.msgs i).requestId)
      (request : received.request = (s.msgs i).request) :
      Receives s r (0, some received, s.setMsg i { s.msgs i with
        state := .active, servicePid := r.host.pid })

theorem recvName_error {r : RecvRequest} {status : ℤ} (h : recvName r = .error status) :
    status ≠ 0 := by
  unfold recvName at h
  have hneg : ∀ {c : ℤ}, (Except.error c : Except ℤ (List UInt8)) = .error status → c ≠ 0 →
      status ≠ 0 := fun heq hc => Except.error.inj heq ▸ hc
  split at h
  · exact hneg h (by decide)
  split at h
  · exact hneg h (by decide)
  split at h
  · exact hneg h (by decide)
  split at h
  · exact hneg h (by decide)
  split at h
  · exact hneg h (by decide)
  · cases h

theorem svcRecvCall_cases (s : State) (r : RecvRequest) : Receives s r (svcRecvCall s r) := by
  unfold svcRecvCall
  cases hname : recvName r with
  | error status => exact .nothing status (recvName_error hname)
  | ok name =>
    dsimp only
    cases hslot : pendingSlot s name with
    | none => exact .nothing errAgain (by decide)
    | some i => exact .taken name i _ hname hslot rfl rfl

inductive Answers (s : State) (pid : UInt64) (input : List UInt8) : ℤ × State → Prop where
  | refused (status : ℤ) (h : status ≠ 0) : Answers s pid input (status, s)
  | accepted (r : Reply) (i : ℕ) (read : readReply input = .ok r)
      (slot : serviceMsgFind s r.requestId = some i) (active : (s.msgs i).state = .active)
      (host : (s.msgs i).servicePid = pid) :
      Answers s pid input (0, s.setMsg i ((s.msgs i).answer r))

theorem svcReplyCall_cases (s : State) (pid : UInt64) (input : List UInt8) :
    Answers s pid input (svcReplyCall s pid input) := by
  unfold svcReplyCall
  cases hread : readReply input with
  | error status =>
    refine .refused status ?_
    unfold readReply at hread
    split at hread
    · exact Except.error.inj hread ▸ by decide
    split at hread
    · exact Except.error.inj hread ▸ by decide
    · cases hread
  | ok r =>
    dsimp only
    cases hslot : serviceMsgFind s r.requestId with
    | none => exact .refused errNoent (by decide)
    | some i =>
      dsimp only
      split
      · exact .refused errNoent (by decide)
      rename_i hactive
      split
      · exact .refused errAccess (by decide)
      rename_i hhost
      exact .accepted r i hread hslot (not_not.1 hactive) (not_not.1 hhost)

theorem pendingSlot_some {name : List UInt8} (h : pendingSlot s name = some i) :
    (s.msgs i).state = .pending ∧ (s.msgs i).service = name := by
  have hfound := List.find?_some h
  rw [Bool.and_eq_true, beq_iff_eq, beq_iff_eq] at hfound
  exact hfound

theorem serviceMsgFind_some {requestId : UInt64} (h : serviceMsgFind s requestId = some i) :
    (s.msgs i).requestId = requestId := by
  unfold serviceMsgFind at h
  split at h
  · cases h
  · have hfound := List.find?_some h
    rw [Bool.and_eq_true, beq_iff_eq] at hfound
    exact hfound.2

/-- The states while a call is in progress that was made in `s` and has its message in slot `i`, with
what was delivered of this message and which replies to it were accepted since. -/
inductive During (s : State) (d : Dispatch) (i : ℕ) :
    List Delivery → List Accepted → State → Prop where
  | called (entered : (dispatchBegin s d).1 = none)
      (slot : (dispatchBegin s d).2.calls = ⟨i, d.out⟩ :: s.calls) :
      During s d i [] [] (dispatchBegin s d).2
  | step {ds : List Delivery} {as : List Accepted} {t : State} (e : Event)
      (h : During s d i ds as t)
      (inside : (∃ ran, e = .finish ran) → s.calls.length + 1 < t.calls.length) :
      During s d i (ds ++ deliveries t i e) (as ++ replies t i e) (step t e)

/-- The receiver runs the entry program of the service that the call was for, as far as the process
table has its path, and gets the request of the call. -/
structure Delivery.Of (x : Delivery) (d : Dispatch) (requestId : UInt64) : Prop where
  service : ∃ service, x.request.registry d.call.owner.chars = some service ∧
    service.running = true ∧ currentPath x.request.host = some service.entryPath
  id : x.received.requestId = requestId
  request : x.received.request = d.input

inductive Phase (d : Dispatch) (requestId : UInt64) :
    List Delivery → List Accepted → Msg → Prop where
  | pending : Phase d requestId [] [] (d.message requestId)
  | active (x : Delivery) (hx : x.Of d requestId) : Phase d requestId [x] []
      { d.message requestId with state := .active, servicePid := x.request.host.pid }
  | done (x : Delivery) (hx : x.Of d requestId) (a : Accepted) (host : a.pid = x.request.host.pid)
      (id : a.reply.requestId = requestId) : Phase d requestId [x] [a]
      (Msg.answer { d.message requestId with
        state := .active, servicePid := x.request.host.pid } a.reply)

theorem Msg.answer_state (msg : Msg) (r : Reply) : (msg.answer r).state = .done := by
  unfold Msg.answer
  split <;> rfl

variable {as : List Accepted} {ds : List Delivery}

theorem Phase.busy {requestId : UInt64} {msg : Msg}
    (h : Phase d requestId ds as msg) : msg.state ≠ .empty := by
  cases h with
  | pending => exact nofun
  | active => exact nofun
  | done =>
    rw [Msg.answer_state]
    exact nofun

structure Holds (s : State) (d : Dispatch) (i : ℕ) (ds : List Delivery) (as : List Accepted)
    (t : State) : Prop where
  phase : Phase d s.nextRequestId ds as (t.msgs i)
  calls : ∃ pre, t.calls = pre ++ ⟨i, d.out⟩ :: s.calls ∧ ∀ c ∈ pre, c.slot ≠ i

theorem copyBounded_text {size : ℕ} (x : Text size) : copyBounded size x.chars = x.chars := by
  unfold copyBounded
  rw [List.takeWhile_eq_self_iff.2 fun c hc => by simpa using x.ends c hc]
  exact List.take_of_length_le (Nat.le_sub_one_of_lt x.fits)

theorem recvName_ok {r : RecvRequest} {name : List UInt8} (h : recvName r = .ok name) :
    ∃ service, r.registry name = some service ∧ service.running = true ∧
      currentPath r.host = some service.entryPath := by
  unfold recvName at h
  split at h
  · cases h
  split at h
  · cases h
  split at h
  · cases h
  rename_i service hservice
  split at h
  · cases h
  rename_i hrunning
  split at h
  · cases h
  rename_i hhost
  obtain rfl := Except.ok.inj h
  refine ⟨service, hservice, Bool.eq_true_of_not_eq_false hrunning, ?_⟩
  have hhost := Bool.eq_true_of_not_eq_false hhost
  unfold currentProcessIsServiceHost at hhost
  rw [Bool.and_eq_true, beq_iff_eq] at hhost
  exact hhost.2

theorem deliveries_recv (s : State) (i : ℕ) (r : RecvRequest) : deliveries s i (.recv r) =
    match recvName r, (svcRecvCall s r).2.1 with
    | .ok name, some received => if pendingSlot s name = some i then [⟨r, received⟩] else []
    | _, _ => [] := rfl

theorem replies_reply (s : State) (i : ℕ) (pid : UInt64) (input : List UInt8) :
    replies s i (.reply pid input) =
    match readReply input with
    | .ok r =>
      if serviceMsgFind s r.requestId = some i ∧ (svcReplyCall s pid input).1 = 0 then [⟨pid, r⟩]
      else []
    | .error _ => [] := rfl

variable {s₀ : State}

theorem holds_recv
    (h : Holds s₀ d i ds as s) (r : RecvRequest) :
    Holds s₀ d i (ds ++ deliveries s i (.recv r)) as (svcRecvCall s r).2.2 := by
  rw [deliveries_recv]
  have hcases := svcRecvCall_cases s r
  generalize svcRecvCall s r = res at hcases
  cases hcases with
  | nothing status hstatus =>
    cases recvName r <;> exact (List.append_nil ds).symm ▸ h
  | taken name j received hname hslot hid hrequest =>
    rw [hname]
    dsimp only
    rw [hslot]
    obtain ⟨hphase, hcalls⟩ := h
    by_cases hj : j = i
    · subst hj
      rw [if_pos rfl]
      refine ⟨?_, hcalls⟩
      rw [setMsg_self]
      obtain ⟨hpending, hservice⟩ := pendingSlot_some hslot
      generalize hmsg : s.msgs j = msg at hphase hpending hservice hid hrequest
      cases hphase with
      | pending =>
        have howner : d.call.owner.chars = name := (copyBounded_text d.call.owner).symm.trans hservice
        exact .active ⟨r, received⟩ ⟨howner ▸ recvName_ok hname, hid, hrequest⟩
      | active => cases hpending
      | done =>
        rw [Msg.answer_state] at hpending
        cases hpending
    · rw [if_neg fun heq => hj (Option.some.inj heq), List.append_nil]
      refine ⟨?_, hcalls⟩
      rw [setMsg_other s _ (Ne.symm hj)]
      exact hphase

theorem holds_reply
    (h : Holds s₀ d i ds as s) (pid : UInt64) (input : List UInt8) :
    Holds s₀ d i ds (as ++ replies s i (.reply pid input)) (svcReplyCall s pid input).2 := by
  rw [replies_reply]
  have hcases := svcReplyCall_cases s pid input
  generalize svcReplyCall s pid input = res at hcases
  cases hcases with
  | refused status hstatus =>
    cases readReply input with
    | error => exact (List.append_nil as).symm ▸ h
    | ok r =>
      dsimp only
      rw [if_neg fun hand => hstatus hand.2, List.append_nil]
      exact h
  | accepted r j hread hslot hactive hhost =>
    rw [hread]
    dsimp only
    rw [hslot]
    obtain ⟨hphase, hcalls⟩ := h
    by_cases hj : j = i
    · subst hj
      rw [if_pos ⟨rfl, rfl⟩]
      refine ⟨?_, hcalls⟩
      rw [setMsg_self]
      have hid := serviceMsgFind_some hslot
      generalize s.msgs j = msg at hphase hactive hhost hid
      cases hphase with
      | pending => cases hactive
      | active x hx => exact .done x hx ⟨pid, r⟩ hhost.symm hid.symm
      | done =>
        rw [Msg.answer_state] at hactive
        cases hactive
    · rw [if_neg fun hand => hj (Option.some.inj hand.1), List.append_nil]
      refine ⟨?_, hcalls⟩
      rw [setMsg_other s _ (Ne.symm hj)]
      exact hphase

theorem holds_finish
    (h : Holds s₀ d i ds as s) (inside : s₀.calls.length + 1 < s.calls.length) (ran : Bool) :
    Holds s₀ d i ds as (step s (.finish ran)) := by
  obtain ⟨hphase, pre, hcalls, hpre⟩ := h
  cases pre with
  | nil =>
    rw [hcalls] at inside
    exact absurd inside (Nat.lt_irrefl _)
  | cons c pre =>
    have hslot : i ≠ c.slot := Ne.symm (hpre c List.mem_cons_self)
    have hstep : ∃ result, dispatchEnd s c (pre ++ ⟨i, d.out⟩ :: s₀.calls) ran =
        (result, { s.setMsg c.slot Msg.clear with calls := pre ++ ⟨i, d.out⟩ :: s₀.calls }) := by
      unfold dispatchEnd
      dsimp only
      split
      · exact ⟨_, rfl⟩
      split
      · exact ⟨_, rfl⟩
      split <;> exact ⟨_, rfl⟩
    obtain ⟨result, hstep⟩ := hstep
    unfold step
    rw [hcalls]
    dsimp only [List.cons_append]
    rw [hstep]
    refine ⟨?_, pre, rfl, fun c' hc' => hpre c' (List.mem_cons_of_mem c hc')⟩
    change Phase d _ ds as ((s.setMsg c.slot Msg.clear).msgs i)
    rw [setMsg_other s _ hslot]
    exact hphase

theorem During.holds (h : During s d i ds as t) :
    Holds s d i ds as t := by
  induction h with
  | called entered slot =>
    have hcases := dispatchBegin_cases s d
    generalize dispatchBegin s d = res at hcases entered slot
    cases hcases with
    | refused => cases entered
    | placed j t _ hslot _ hcalls =>
      rw [hcalls] at slot
      obtain rfl : j = i := congrArg Call.slot (List.cons.inj slot).1
      exact ⟨by rw [hslot]; exact .pending, [], hcalls, nofun⟩
  | @step ds as t e _ inside ih =>
    cases e with
    | call d' =>
      change Holds s d i (ds ++ []) (as ++ []) (dispatchBegin t d').2
      rw [List.append_nil, List.append_nil]
      have hcases := dispatchBegin_cases t d'
      generalize dispatchBegin t d' = res at hcases
      cases hcases with
      | refused => exact ih
      | placed j u hfree _ hothers hcalls =>
        obtain ⟨hphase, pre, hpre, hslots⟩ := ih
        -- a message in its slot is not empty, so the new one is in another slot
        have hj : i ≠ j := by
          rintro rfl
          exact hphase.busy hfree
        refine ⟨by rw [hothers i hj]; exact hphase, ⟨j, d'.out⟩ :: pre, ?_, ?_⟩
        · change u.calls = _
          rw [hcalls, hpre]
          rfl
        · intro c hc
          obtain rfl | hc := List.mem_cons.1 hc
          · exact Ne.symm hj
          · exact hslots c hc
    | recv r =>
      change Holds s d i (ds ++ deliveries t i (.recv r)) (as ++ []) (svcRecvCall t r).2.2
      rw [List.append_nil]
      exact holds_recv ih r
    | reply pid input =>
      change Holds s d i (ds ++ []) (as ++ replies t i (.reply pid input))
        (svcReplyCall t pid input).2
      rw [List.append_nil]
      exact holds_reply ih pid input
    | finish ran =>
      change Holds s d i (ds ++ []) (as ++ []) (Services.step t (.finish ran))
      rw [List.append_nil, List.append_nil]
      exact holds_finish ih (inside ⟨ran, rfl⟩) ran

/-- The result of a call is its reply: its status, with the bytes unless it is an error. -/
structure Dispatch.ResultOf (d : Dispatch) (r : Reply) (result : Result) : Prop where
  fitting : r.data.length ≤ d.out.length → r.data.length ≤ serviceMsgDataMax →
    result.status = r.status ∧ result.actualOutLen = r.data.length ∧
    (0 ≤ r.status → result.out = r.data ++ d.out.drop r.data.length)
  excess : d.out.length < r.data.length ∨ serviceMsgDataMax < r.data.length →
    result.status = errOverflow ∧ result.out = d.out

theorem dispatchEnd_result {msg : Msg} {r : Reply}
    (hcapacity : msg.responseCapacity =
      if d.out.length < serviceMsgDataMax then d.out.length else serviceMsgDataMax)
    (hs : s.msgs i = msg.answer r) (rest : List Call) :
    d.ResultOf r (dispatchEnd s ⟨i, d.out⟩ rest true).1 := by
  unfold dispatchEnd
  dsimp only
  rw [hs, if_neg (not_or.2 ⟨nofun, not_not.2 (Msg.answer_state msg r)⟩)]
  unfold Msg.answer
  by_cases hfits : r.data.length > msg.responseCapacity
  · rw [if_pos hfits]
    dsimp only
    rw [if_neg (fun h => absurd h.1 (by decide)), if_neg (by decide)]
    refine ⟨fun hout hmax => ?_, fun _ => ⟨rfl, rfl⟩⟩
    rw [hcapacity] at hfits
    split at hfits <;> omega
  · rw [if_neg hfits]
    dsimp only
    have hout : r.data.length ≤ d.out.length ∧ r.data.length ≤ serviceMsgDataMax := by
      rw [hcapacity] at hfits
      split at hfits <;> omega
    rw [if_neg (fun h => absurd h.2 (by omega))]
    refine ⟨fun _ _ => ?_, fun hexcess => ?_⟩
    · by_cases hstatus : r.status ≥ 0
      · rw [if_pos hstatus]
        exact ⟨rfl, rfl, fun _ => rfl⟩
      · rw [if_neg hstatus]
        exact ⟨rfl, rfl, fun h => absurd h hstatus⟩
    · omega

/-- The end of a call that has its message in slot `i`. -/
def finished (d : Dispatch) (i : ℕ) (rest : List Call) (ran : Bool) (t : State) : Result :=
  (dispatchEnd t ⟨i, d.out⟩ rest ran).1

theorem replies_some {a : Accepted} {e : Event} (h : a ∈ replies s i e) :
    (s.msgs i).state = .active ∧ (s.msgs i).servicePid = a.pid ∧
    (s.msgs i).requestId = a.reply.requestId := by
  cases e with
  | call | recv | finish => cases h
  | reply pid input =>
    have hcases := svcReplyCall_cases s pid input
    rw [replies_reply] at h
    generalize svcReplyCall s pid input = res at hcases h
    cases hread : readReply input with
    | error =>
      rw [hread] at h
      cases h
    | ok r =>
      rw [hread] at h
      dsimp only at h
      split at h
      · rename_i hfound
        obtain rfl := List.mem_singleton.1 h
        cases hcases with
        | refused status hstatus => exact absurd hfound.2 hstatus
        | accepted r' j hread' hslot hactive hhost =>
          rw [hread] at hread'
          obtain rfl := Except.ok.inj hread'
          rw [hfound.1] at hslot
          obtain rfl := Option.some.inj hslot
          exact ⟨hactive, hhost, serviceMsgFind_some hfound.1⟩
      · cases h

/-- While a call is in progress its message is delivered at most once, to a process whose recorded
path is the entry path of the service that was called; a reply to it is accepted only when it is
active, from the process that received it, and at most once; and when the call returns anything but
an error of its own, it returns that reply. A call that makes no message returns such an error. -/
theorem replies_belong_to_requests (s : State) (d : Dispatch) :
    (∀ result, (dispatchBegin s d).1 = some result →
      result.status = errInval ∨ result.status = errNoent ∨ result.status = errBusy) ∧
    ∀ i ds as t, During s d i ds as t →
      (ds.length ≤ 1 ∧ ∀ x ∈ ds, x.Of d s.nextRequestId) ∧
      (as.length ≤ 1 ∧ ∀ e, ∀ a ∈ replies t i e,
        (t.msgs i).state = .active ∧ ∃ x ∈ ds, x.request.host.pid = a.pid) ∧
      ∀ ran, (finished d i s.calls ran t).status = errBusy ∨
        ∃ a, as = [a] ∧ a.reply.requestId = s.nextRequestId ∧
          d.ResultOf a.reply (finished d i s.calls ran t) := by
  refine ⟨fun result hresult => ?_, fun i ds as t h => ?_⟩
  · have hcases := dispatchBegin_cases s d
    generalize dispatchBegin s d = res at hcases hresult
    cases hcases with
    | refused status hstatus =>
      obtain rfl := Option.some.inj hresult
      exact hstatus
    | placed => cases hresult
  · obtain ⟨hphase, -⟩ := h.holds
    generalize hmsg : t.msgs i = msg at hphase
    have hunfinished : msg.state ≠ .done → ∀ ran, (finished d i s.calls ran t).status = errBusy := by
      intro hstate ran
      unfold finished dispatchEnd
      dsimp only
      rw [hmsg, if_pos (Or.inr hstate)]
    have hactive : ∀ e, ∀ a ∈ replies t i e, msg.state = .active ∧ msg.servicePid = a.pid := by
      intro e a ha
      obtain ⟨hstate, hpid, -⟩ := replies_some ha
      rw [hmsg] at hstate hpid
      exact ⟨hstate, hpid⟩
    cases hphase with
    | pending =>
      refine ⟨⟨Nat.zero_le 1, nofun⟩, ⟨Nat.zero_le 1, fun e a ha => ?_⟩, fun ran => ?_⟩
      · cases (hactive e a ha).1
      · exact Or.inl (hunfinished nofun ran)
    | active x hx =>
      refine ⟨⟨le_refl 1, fun y hy => ?_⟩, ⟨Nat.zero_le 1, fun e a ha => ?_⟩, fun ran => ?_⟩
      · obtain rfl := List.mem_singleton.1 hy
        exact hx
      · exact ⟨rfl, x, List.mem_singleton_self x, (hactive e a ha).2⟩
      · exact Or.inl (hunfinished nofun ran)
    | done x hx a hpid hid =>
      refine ⟨⟨le_refl 1, fun y hy => ?_⟩, ⟨le_refl 1, fun e b hb => ?_⟩, fun ran => ?_⟩
      · obtain rfl := List.mem_singleton.1 hy
        exact hx
      · have hstate := (hactive e b hb).1
        rw [Msg.answer_state] at hstate
        cases hstate
      · cases ran with
        | false =>
          left
          unfold finished dispatchEnd
          dsimp only
          rw [if_pos (Or.inl rfl)]
        | true => exact Or.inr ⟨a, rfl, hid, dispatchEnd_result rfl hmsg s.calls⟩

/-- "/ex/h", with the name "a" and the method "b". -/
def echo : Service := ⟨[47, 101, 120, 47, 104], true⟩

def echoCall : ServiceCall := ⟨⟨[97], by decide, by simp⟩, ⟨[98], by decide, by simp⟩⟩

/-- The byte 5 is sent, and there is room for two bytes of response. -/
def askEcho : Dispatch := ⟨echo, echoCall, [5], [0, 0], 4000, 0, 0⟩

def host : Host := ⟨5000, some [47, 101, 120, 47, 104]⟩

def takeEcho : Event := .recv ⟨fun name => if name = [97] then some echo else none, host, [97, 0],
  some 200⟩

/-- The reply to request 1 with that status and the byte 7. -/
def answerEcho (status : ℤ) : Event :=
  .reply 5000 (leBytes 8 1 ++ encode64 status ++ leBytes 8 1 ++ [7])

def noMessages : State := ⟨fun _ => Msg.clear, 1, []⟩

def asked : State := (dispatchBegin noMessages askEcho).2

def answered (status : ℤ) : State := step (step asked takeEcho) (answerEcho status)

theorem answered_during (status : ℤ) : During noMessages askEcho 0
    ((([] : List Delivery) ++ deliveries asked 0 takeEcho) ++
      deliveries (step asked takeEcho) 0 (answerEcho status))
    ((([] : List Accepted) ++ replies asked 0 takeEcho) ++
      replies (step asked takeEcho) 0 (answerEcho status)) (answered status) :=
  ((During.called rfl rfl).step takeEcho nofun).step (answerEcho status) nofun

theorem echo_answers : (finished askEcho 0 [] true (answered 0)).status = errBusy ∨
    ∃ a, replies (step asked takeEcho) 0 (answerEcho 0) = [a] ∧ a.reply.requestId = 1 ∧
      askEcho.ResultOf a.reply (finished askEcho 0 [] true (answered 0)) :=
  ((replies_belong_to_requests noMessages askEcho).2 0 _ _ _ (answered_during 0)).2.2 true

/-- With a status of -6 the call returns that its response has one byte, but not this byte. -/
theorem error_reply_loses_bytes :
    (∃ ds, During noMessages askEcho 0 ds [⟨5000, ⟨1, -6, [7]⟩⟩] (answered (-6))) ∧
    finished askEcho 0 [] true (answered (-6)) = ⟨-6, [0, 0], 1⟩ := by
  have hreplies : ([] ++ replies asked 0 takeEcho) ++
      replies (step asked takeEcho) 0 (answerEcho (-6)) = [⟨5000, ⟨1, -6, [7]⟩⟩] := by decide
  exact ⟨⟨_, hreplies ▸ answered_during (-6)⟩, by decide⟩

end Services
