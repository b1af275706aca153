import BlankChat.Cli.Polling
import BlankChat.Cli.SendLimit
import BlankChat.Cli.Traffic
import BlankChat.Lib.Handover
import BlankChat.Session.Agreement
import BlankChat.System.Deployment

/-!
# Two chat clients in the deployment

`Session.World` has two clients and a relay that keeps every mailbox in order, without
connections, bytes or a quota. Here it is what two clients of the deployment see, as long as
no mailbox is full when a frame for it arrives: `chat_world`. Then the broker does what
mailboxes without a bound do (`exchanges_roomy`), and `Lib.Service` may put them in its place.

So what holds in the world holds of clients that are connected through sockets, parsers, write
queues and the broker. `chat_agreement` is the agreement about the keys: if one of the clients
starts no rotations of its own, the sessions fit whenever both clients are idle.
-/

namespace BlankChat.System

open Lib BlankChat.Core Crypto Protocol Client Cli Network Server Session

/-! ## Mailboxes without a bound -/

/-- What a relay does that keeps every frame. -/
def serveRoomy (t : MailboxID → List Frame) (f : Frame) :
    (MailboxID → List Frame) × List Frame :=
  match f.action with
  | .push | .ack => (Function.update t f.mailboxId (t f.mailboxId ++ [f]), [])
  | .poll =>
      (Function.update t f.mailboxId (t f.mailboxId).tail,
        [(t f.mailboxId).head?.getD (Frame.createPoll f.mailboxId)])
  | _ => (t, [])

def roomyService {ι σ : Type} (A : ι → Application σ) :
    Service.Scheme ι σ (MailboxID → List Frame) Frame Frame where
  issue := fun i => (A i).frameProvider
  accept := fun i => (A i).frameReceiver
  serve := fun t _ f => serveRoomy t f

/-- The mailbox of a frame that is to be stored is not full. -/
def HasRoom (b : MessageBroker) (f : Frame) : Prop :=
  f.action = .push ∨ f.action = .ack → (b.queue f.mailboxId).length < b.maxMessages.toNat

instance (b : MessageBroker) (f : Frame) : Decidable (HasRoom b f) :=
  inferInstanceAs (Decidable (_ → _))

theorem serveRoomy_queue {b : MessageBroker} {f : Frame} (h : HasRoom b f) :
    serveRoomy b.queue f = ((serveFrame b f).1.queue, (serveFrame b f).2) := by
  have hstore : f.action = .push ∨ f.action = .ack →
      (b.processPush f).queue =
        Function.update b.queue f.mailboxId (b.queue f.mailboxId ++ [f]) := by
    intro haction
    rw [MessageBroker.queue_processPush, if_pos (h haction)]
  unfold serveRoomy serveFrame
  cases haction : f.action with
  | push =>
      dsimp only
      rw [hstore (.inl haction)]
  | ack =>
      dsimp only
      rw [hstore (.inr haction)]
  | poll =>
      obtain ⟨hanswer, hqueue⟩ := MessageBroker.processPoll_eq b f.mailboxId
      dsimp only
      rw [← hqueue, ← hanswer]
      rcases b.processPoll f.mailboxId with ⟨_ | response, b'⟩ <;> rfl
  | authChallenge => rfl
  | authResponse => rfl

/-- Where there is room, the bound of the broker makes no difference. -/
theorem exchanges_roomy {ι σ : Type} (A : ι → Application σ) :
    Service.Exchanges HasRoom MessageBroker.queue (mailService A) (roomyService A) where
  issue := rfl
  accept := rfl
  serve := fun _ _ _ h => serveRoomy_queue h

section Roomy

variable {ι σ : Type} [DecidableEq ι] {A : ι → Application σ} {S : Sodium} {app : ι → σ}
  {challenge : ι → ByteVec challengSize} {max : UInt32} {events : List (DeploymentEvent ι σ)}

/-- What the applications have done could have been done with mailboxes without a bound. -/
theorem roomy_clients (hpossible : Run.Along (Deployment.step A S) (Deployment.Possible A)
      (Deployment.start app challenge max) events)
    (hroom : Run.Along (Deployment.step A S) (Deployment.Arrives HasRoom S)
      (Deployment.start app challenge max) events) :
    let d := (Deployment.start app challenge max).run A S events
    let service : Service.Direct ι σ (MailboxID → List Frame) Frame :=
      { client := app, shared := fun _ => [] }
    (∃ acts, (∀ i, (service.run (roomyService A) acts).client i = (d.clients i).app) ∧
      (service.run (roomyService A) acts).history = d.history) ∧
    ((∀ i, d.Drained i) → ∃ acts,
      (∀ i, (service.run (roomyService A) acts).client i = (d.clients i).app) ∧
      (service.run (roomyService A) acts).history = d.history ∧
      (service.run (roomyService A) acts).shared = d.relay.broker.queue) := by
  intro d service
  obtain ⟨events', href, hserves⟩ := canFollow_start hpossible hroom
  have hrun := (exchanges_roomy A).run hserves
  obtain ⟨hclients, hall⟩ :=
    Service.exists_direct (X := roomyService A) app (fun _ => []) events'
  constructor
  · obtain ⟨acts, hclient, hhistory⟩ := hclients
    refine ⟨acts, fun i => ?_, ?_⟩
    · rw [href.apps i]
      exact (congrFun hclient i).trans (congrFun (congrArg Service.Queued.client hrun) i)
    · rw [href.history]
      exact hhistory.trans (congrArg Service.Queued.history hrun)
  · intro hdrained
    have hup : ∀ i, (Service.Queued.run (roomyService A)
        { client := app, shared := fun _ => [] } events').up i = [] := by
      intro i
      obtain ⟨resp, served, done, hlinked⟩ := href.linked i
      exact (congrFun (congrArg Service.Queued.up hrun) i).trans
        (hlinked.up_eq_nil (hdrained i).1 (hdrained i).2)
    obtain ⟨acts, hacts⟩ := hall hup
    refine ⟨acts, fun i => ?_, ?_, ?_⟩
    · rw [hacts, href.apps i]
      exact congrFun (congrArg Service.Queued.client hrun) i
    · rw [hacts, href.history]
      exact congrArg Service.Queued.history hrun
    · rw [hacts, href.broker]
      exact congrArg Service.Queued.shared hrun

end Roomy

/-! ## What a history holds -/

theorem exchanged_work {σ : Type} (f : σ → σ) (l : List ClientEvent) :
    .work f ∉ exchanged σ l := by
  intro hmem
  obtain ⟨e, -, he⟩ := List.mem_filterMap.mp hmem
  cases e <;> cases he

/-- The work of an application is what it is told. -/
theorem work_of_moves {σ : Type} {c c' : TcpClient σ} {e : NetworkEvent σ} {f : σ → σ}
    (h : .work f ∈ moves c c' e) : e = .command f := by
  cases e with
  | command g =>
      unfold moves at h
      dsimp only at h
      split at h
      · cases h
      · exact congrArg NetworkEvent.command (Service.Move.work.inj (List.mem_singleton.mp h)).symm
  | _ => exact absurd (List.mem_of_mem_drop h) (exchanged_work f _)

theorem work_of_history {σ : Type} (A : Side → Application σ) (S : Sodium)
    (d : Deployment Side σ) (events : List (DeploymentEvent Side σ)) (s : Side) (f : σ → σ)
    (h : .work f ∈ (d.run A S events).history s) :
    .work f ∈ d.history s ∨ .client s (.command f) ∈ events := by
  induction events generalizing d with
  | nil => exact .inl h
  | cons e events ih =>
      rcases ih (d.step A S e) h with hstep | hlater
      · cases e with
        | session i e => exact .inl hstep
        | client i e =>
            by_cases hs : s = i
            · subst hs
              rw [show (d.step A S (.client s e)).history s = _ from Function.update_self ..] at hstep
              rcases List.mem_append.mp hstep with hbefore | hnew
              · exact .inl hbefore
              · rw [work_of_moves hnew]
                exact .inr List.mem_cons_self
            · rw [show (d.step A S (.client i e)).history s = _ from
                Function.update_of_ne hs ..] at hstep
              exact .inl hstep
      · exact .inr (List.mem_cons_of_mem e hlater)

/-! ## The mail service and the world -/

/-- What a user does with a client that is connected. -/
def Sends (D : Duo) (s : Side) (f : Repl → Repl) : Prop :=
  ∃ text, f = fun r => r.handleSend (D.setup s) (D.aliasName s) text

def chat (D : Duo) (s : Side) : Application Repl := application (D.setup s)

/-- A frame for the relay, by its action. -/
def IsRequest (f : Frame) : Prop := f.action = .push ∨ f.action = .ack ∨ f.action = .poll

theorem isRequest_of_carries {S : Sodium} {f : Frame} {content : Content} (h : Carries S f content) :
    IsRequest f := by
  cases content with
  | poll =>
      obtain ⟨m, rfl⟩ := h
      exact .inr (.inr rfl)
  | text t =>
      obtain ⟨m, key, nonce, ciphertext, -, rfl⟩ := h
      exact .inl rfl
  | receipt =>
      obtain ⟨m, key, nonce, text, ciphertext, -, rfl⟩ := h
      exact .inr (.inl rfl)
  | rotateRequest =>
      obtain ⟨m, key, nonce, e, sig, ciphertext, -, rfl⟩ := h
      exact .inl rfl
  | rotateAck =>
      obtain ⟨m, key, nonce, e, sig, ciphertext, -, rfl⟩ := h
      exact .inl rfl

/-- A client that is connected and has frames for the relay in its outbox. -/
structure Online (r : Repl) : Prop where
  connected : r.connected = true
  outbox : ∀ f ∈ r.outbox, IsRequest f

namespace Online

variable {r r' : Repl} {E : Setup}

theorem of_pushes (h : Online r) (hlist : r'.connected = r.connected)
    (hpushes : Pushes E (fun _ => True) r r') : Online r' := by
  refine ⟨hlist.trans h.connected, fun f hf => ?_⟩
  rcases hpushes f hf with hf | ⟨content, hcontent, -⟩
  · exact h.outbox f hf
  · exact isRequest_of_carries hcontent

theorem handleSend (h : Online r) (aliasName text : Bytes) :
    Online (r.handleSend E aliasName text) :=
  h.of_pushes (Repl.handleSend_list r aliasName text).connected
    (Repl.handleSend_pushes r aliasName trivial)

theorem onFrameReceived (h : Online r) (f : Frame) : Online (r.onFrameReceived E f) :=
  h.of_pushes (Repl.onFrameReceived_list r f).connected (Repl.onFrameReceived_pushes r f)

theorem getNextFrameForCBR (h : Online r) (E : Setup) :
    IsRequest r.getNextFrameForCBR.1 ∧ Online r.getNextFrameForCBR.2 := by
  obtain ⟨hframe, hpushes⟩ :=
    Repl.getNextFrameForCBR_spec (E := E) (T := fun _ => True) r
  refine ⟨?_, h.of_pushes (Repl.getNextFrameForCBR_list r).connected hpushes⟩
  rcases hframe with hframe | hframe
  · exact h.outbox _ hframe
  · exact isRequest_of_carries hframe

end Online

/-- A frame that a poll has brought. -/
def isMail (f : Frame) : Bool := f.action ≠ .poll

/-- The world is where the mail service is. An answer that brings nothing is not in the
world. -/
structure Shows (d : Service.Direct Side Repl (MailboxID → List Frame) Frame) (w : World) :
    Prop where
  client : d.client = w.client
  online : ∀ s, Online (d.client s)
  queue : ∀ m, d.shared m = w.mailbox m
  mail : ∀ m, ∀ f ∈ d.shared m, isMail f = true
  incoming : ∀ s, (d.inbox s).filter isMail = w.incoming s

section Acts

variable {D : Duo} {d : Service.Direct Side Repl (MailboxID → List Frame) Frame} {w : World}
  {s : Side}

theorem online_update {client : Side → Repl} (h : ∀ t, Online (client t)) {r : Repl} (hr : Online r) :
    ∀ t, Online (Function.update client s r t) := by
  intro t
  by_cases ht : t = s
  · subst ht
    rw [Function.update_self]
    exact hr
  · rw [Function.update_of_ne ht]
    exact h t

theorem Shows.work (h : Shows d w) {f : Repl → Repl} (hf : Sends D s f) :
    ∃ text, Shows (d.step (roomyService (chat D)) (.work s f)) (w.step D (.send s text)) := by
  obtain ⟨text, rfl⟩ := hf
  refine ⟨text, ?_, online_update h.online ((h.online s).handleSend _ _), h.queue, h.mail,
    h.incoming⟩
  show Function.update d.client s _ = Function.update w.client s _
  rw [h.client]

theorem Shows.accept (h : Shows d w) (s : Side) :
    Shows (d.step (roomyService (chat D)) (.accept s)) w ∨
      Shows (d.step (roomyService (chat D)) (.accept s)) (w.step D (.receive s)) := by
  simp only [Service.Direct.step]
  split
  · exact .inl h
  · next f rest hinbox =>
      have honline := online_update (s := s) h.online
        ((h.online s).onFrameReceived (E := D.setup s) f)
      have hother : ∀ t, t ≠ s → (Function.update d.inbox s rest t).filter isMail = w.incoming t := by
        intro t ht
        rw [Function.update_of_ne ht]
        exact h.incoming t
      have hincoming := h.incoming s
      rw [hinbox] at hincoming
      by_cases hmail : isMail f = true
      · rw [List.filter_cons_of_pos hmail] at hincoming
        have hstep : w.step D (.receive s) =
            { w.setClient s ((w.client s).onFrameReceived (D.setup s) f) with
              incoming := Function.update w.incoming s (rest.filter isMail) } := by
          simp only [World.step, ← hincoming]
        rw [hstep]
        refine .inr ⟨?_, honline, h.queue, h.mail, ?_⟩
        · show Function.update d.client s _ = Function.update w.client s _
          rw [← h.client]
          rfl
        · intro t
          by_cases ht : t = s
          · subst ht
            simp
          · simpa [Function.update_of_ne ht] using hother t ht
      · -- an empty answer changes nothing
        rw [List.filter_cons_of_neg hmail] at hincoming
        have hpoll : f.action = .poll := by simpa [isMail] using hmail
        have hsame : (roomyService (chat D)).accept s (d.client s) f = d.client s := if_pos hpoll
        refine .inl ⟨?_, honline, h.queue, h.mail, ?_⟩
        · rw [← h.client, hsame]
          exact Function.update_eq_self ..
        · intro t
          by_cases ht : t = s
          · subst ht
            simpa using hincoming
          · exact hother t ht

theorem Shows.client_call (h : Shows d w) (s : Side) :
    (d.step (roomyService (chat D)) (.call s)).client =
        (w.setClient s (d.client s).getNextFrameForCBR.2).client ∧
      ∀ t, Online ((d.step (roomyService (chat D)) (.call s)).client t) := by
  obtain ⟨-, honline⟩ := (h.online s).getNextFrameForCBR (D.setup s)
  refine ⟨?_, online_update h.online honline⟩
  show Function.update d.client s _ = Function.update w.client s _
  rw [← h.client]
  rfl

theorem Shows.store (h : Shows d w) {f : Frame} (hf : (d.client s).getNextFrameForCBR.1 = f)
    (haction : f.action = .push ∨ f.action = .ack) :
    Shows (d.step (roomyService (chat D)) (.call s))
      ((w.setClient s (d.client s).getNextFrameForCBR.2).forward s f) := by
  obtain ⟨hclient, honline⟩ := h.client_call (D := D) s
  have hserve : serveRoomy d.shared f =
      (Function.update d.shared f.mailboxId (d.shared f.mailboxId ++ [f]), []) := by
    unfold serveRoomy
    rcases haction with haction | haction <;> rw [haction]
  have hne : f.action ≠ .poll := by
    rcases haction with haction | haction <;> rw [haction] <;> decide
  have hshared : (d.step (roomyService (chat D)) (.call s)).shared =
      Function.update d.shared f.mailboxId (d.shared f.mailboxId ++ [f]) := by
    show (serveRoomy d.shared (d.client s).getNextFrameForCBR.1).1 = _
    rw [hf, hserve]
  rw [show (w.setClient s (d.client s).getNextFrameForCBR.2).forward s f =
    { w.setClient s (d.client s).getNextFrameForCBR.2 with relay := w.relay ++ [f] } from if_neg hne]
  refine ⟨hclient, honline, fun m => ?_, fun m g hg => ?_, fun t => ?_⟩
  · rw [hshared]
    show _ = World.mailbox { w with relay := w.relay ++ [f] } m
    rw [World.mailbox_store]
    by_cases hm : m = f.mailboxId
    · subst hm
      rw [Function.update_self, if_pos rfl, h.queue]
    · rw [Function.update_of_ne hm, if_neg (Ne.symm hm), h.queue]
  · rw [hshared] at hg
    by_cases hm : m = f.mailboxId
    · subst hm
      rw [Function.update_self] at hg
      rcases List.mem_append.mp hg with hg | hg
      · exact h.mail _ g hg
      · rw [List.mem_singleton.mp hg]
        exact decide_eq_true hne
    · rw [Function.update_of_ne hm] at hg
      exact h.mail m g hg
  · show (Function.update d.inbox s (d.inbox s ++
      (serveRoomy d.shared (d.client s).getNextFrameForCBR.1).2) t).filter isMail = w.incoming t
    rw [hf, hserve, List.append_nil, Function.update_eq_self]
    exact h.incoming t

theorem Shows.fetch (h : Shows d w) {f : Frame} (hf : (d.client s).getNextFrameForCBR.1 = f)
    (haction : f.action = .poll) :
    Shows (d.step (roomyService (chat D)) (.call s))
      ((w.setClient s (d.client s).getNextFrameForCBR.2).forward s f) := by
  obtain ⟨hclient, honline⟩ := h.client_call (D := D) s
  have hserve : serveRoomy d.shared f =
      (Function.update d.shared f.mailboxId (d.shared f.mailboxId).tail,
        [(d.shared f.mailboxId).head?.getD (Frame.createPoll f.mailboxId)]) := by
    unfold serveRoomy
    rw [haction]
  have hanswer : [(d.shared f.mailboxId).head?.getD (Frame.createPoll f.mailboxId)].filter isMail =
      (d.shared f.mailboxId).head?.toList := by
    have hmail := h.mail f.mailboxId
    cases hqueue : d.shared f.mailboxId with
    | nil => rfl
    | cons response rest =>
        exact List.filter_cons_of_pos (hmail response (hqueue ▸ List.mem_cons_self))
  have hshared : (d.step (roomyService (chat D)) (.call s)).shared =
      Function.update d.shared f.mailboxId (d.shared f.mailboxId).tail := by
    show (serveRoomy d.shared (d.client s).getNextFrameForCBR.1).1 = _
    rw [hf, hserve]
  rw [show (w.setClient s (d.client s).getNextFrameForCBR.2).forward s f =
    (w.setClient s (d.client s).getNextFrameForCBR.2).fetch s f.mailboxId from if_pos haction]
  refine ⟨?_, honline, fun m => ?_, fun m g hg => ?_, fun t => ?_⟩
  · rw [hclient]
    unfold World.fetch
    split <;> rfl
  · rw [hshared, World.mailbox_fetch]
    by_cases hm : m = f.mailboxId
    · subst hm
      rw [Function.update_self, if_pos rfl, h.queue]
      rfl
    · rw [Function.update_of_ne hm, if_neg hm, h.queue]
      rfl
  · rw [hshared] at hg
    by_cases hm : m = f.mailboxId
    · subst hm
      rw [Function.update_self] at hg
      exact h.mail _ g (List.mem_of_mem_tail hg)
    · rw [Function.update_of_ne hm] at hg
      exact h.mail m g hg
  · show (Function.update d.inbox s (d.inbox s ++
      (serveRoomy d.shared (d.client s).getNextFrameForCBR.1).2) t).filter isMail = _
    rw [hf, hserve]
    by_cases ht : t = s
    · subst ht
      rw [Function.update_self, List.filter_append, hanswer, h.incoming, World.incoming_fetch,
        h.queue]
      rfl
    · rw [Function.update_of_ne ht, h.incoming]
      unfold World.fetch
      split
      · rfl
      · exact (Function.update_of_ne ht ..).symm

/-- A tick: the frame is stored, or it is a poll. -/
theorem Shows.call (h : Shows d w) (s : Side) :
    Shows (d.step (roomyService (chat D)) (.call s)) (w.step D (.tick s)) := by
  have htick : w.step D (.tick s) =
      (w.setClient s (d.client s).getNextFrameForCBR.2).forward s
        (d.client s).getNextFrameForCBR.1 := by
    simp only [World.step]
    rw [← h.client, if_pos (h.online s).connected]
  rw [htick]
  obtain ⟨hframe, -⟩ := (h.online s).getNextFrameForCBR (D.setup s)
  rcases hframe with haction | haction | haction
  · exact h.store rfl (.inl haction)
  · exact h.store rfl (.inr haction)
  · exact h.fetch rfl haction

/-- An event of two clients that stay connected. -/
def Plain : Event → Prop
  | .send .. | .tick _ | .receive _ => True
  | .connect _ | .restart _ => False

/-- **A run of the mail service is a run of the world.** -/
theorem Shows.run (h : Shows d w) (acts : List (Service.Act Side Repl))
    (hcommands : ∀ s f, .work f ∈ (d.run (roomyService (chat D)) acts).history s → Sends D s f) :
    ∃ events, (∀ ev ∈ events, Plain ev) ∧
      Shows (d.run (roomyService (chat D)) acts) (w.run D events) := by
  induction acts using List.reverseRecOn with
  | nil => exact ⟨[], List.forall_mem_nil _, h⟩
  | append_singleton acts a ih =>
      have hrun : d.run (roomyService (chat D)) (acts ++ [a]) =
          (d.run (roomyService (chat D)) acts).step (roomyService (chat D)) a := List.foldl_append
      have hgrows := fun s => Service.Direct.history_step (X := roomyService (chat D))
        (d.run (roomyService (chat D)) acts) a s
      rw [hrun] at hcommands ⊢
      obtain ⟨events, hplain, hshows⟩ := ih fun s f hf => hcommands s f ((hgrows s).subset hf)
      -- one event of the world for the last act, or none
      have hnext : ∀ ev, Plain ev →
          Shows ((d.run (roomyService (chat D)) acts).step (roomyService (chat D)) a)
            ((w.run D events).step D ev) →
          ∃ events, (∀ ev ∈ events, Plain ev) ∧
            Shows ((d.run (roomyService (chat D)) acts).step (roomyService (chat D)) a)
              (w.run D events) := by
        intro ev hev hshows'
        refine ⟨events ++ [ev], List.forall_mem_append.mpr
          ⟨hplain, List.forall_mem_singleton.mpr hev⟩, ?_⟩
        rw [World.run, List.foldl_append]
        exact hshows'
      cases a with
      | work s f =>
          have hmem : Service.Move.work f ∈ ((d.run (roomyService (chat D)) acts).step
              (roomyService (chat D)) (.work s f)).history s := by
            rw [Service.Direct.history_work]
            exact List.mem_append_right _ List.mem_cons_self
          obtain ⟨text, hshows'⟩ := hshows.work (hcommands s f hmem)
          exact hnext (.send s text) trivial hshows'
      | call s => exact hnext (.tick s) trivial (hshows.call s)
      | accept s =>
          rcases hshows.accept (D := D) s with hshows' | hshows'
          · exact ⟨events, hplain, hshows'⟩
          · exact hnext (.receive s) trivial hshows'

end Acts

/-! ## The deployment and the world -/

section Chat

variable {D : Duo} {max : UInt32} {w : World} {challenge : Side → ByteVec challengSize}
  {events : List (DeploymentEvent Side Repl)}

/-- The clients are connected, and nothing is under way. -/
structure Quiet (w : World) : Prop where
  online : ∀ s, Online (w.client s)
  relay : w.relay = []
  incoming : ∀ s, w.incoming s = []

theorem Quiet.shows (h : Quiet w) : Shows { client := w.client, shared := fun _ => [] } w where
  client := rfl
  online := h.online
  queue := by
    intro m
    rw [World.mailbox, h.relay]
    rfl
  mail := by
    intro m f hf
    cases hf
  incoming := fun s => (h.incoming s).symm

/-- The deployment of the clients of a world. -/
def deployed (D : Duo) (w : World) (challenge : Side → ByteVec challengSize) (max : UInt32)
    (events : List (DeploymentEvent Side Repl)) : Deployment Side Repl :=
  (Deployment.start w.client challenge max).run (chat D) D.sodium events

/-- The runs to be considered: the network does what it may do, the users send texts to each
other, and no mailbox is full when a frame for it arrives. -/
structure Usual (D : Duo) (w : World) (challenge : Side → ByteVec challengSize) (max : UInt32)
    (events : List (DeploymentEvent Side Repl)) : Prop where
  possible : Run.Along (Deployment.step (chat D) D.sodium) (Deployment.Possible (chat D))
    (Deployment.start w.client challenge max) events
  commands : ∀ s f, .client s (.command f) ∈ events → Sends D s f
  room : Run.Along (Deployment.step (chat D) D.sodium) (Deployment.Arrives HasRoom D.sodium)
    (Deployment.start w.client challenge max) events

theorem Usual.sends (h : Usual D w challenge max events) (s : Side) (f : Repl → Repl)
    (hf : .work f ∈ (deployed D w challenge max events).history s) : Sends D s f := by
  rcases work_of_history (chat D) D.sodium (Deployment.start w.client challenge max) events s f hf
    with hf | hf
  · cases hf
  · exact h.commands s f hf

theorem Usual.runs (h : Usual D w challenge max events) (hquiet : Quiet w) :
    ∃ run, (∀ ev ∈ run, Plain ev) ∧
      ∀ s, ((deployed D w challenge max events).clients s).app = (w.run D run).client s := by
  obtain ⟨acts, hclient, hhistory⟩ := (roomy_clients h.possible h.room).1
  obtain ⟨run, hplain, hshows⟩ := hquiet.shows.run acts (hhistory ▸ h.sends)
  exact ⟨run, hplain, fun s => (hclient s).symm.trans (congrFun hshows.client s)⟩

/-- **Two clients of the deployment are in a world.** As long as no mailbox is full when a frame
for it arrives, their states are those of some run of the world, and so is what waits at the
broker when the sessions have read everything. -/
theorem chat_world (hquiet : Quiet w) (h : Usual D w challenge max events) :
    (∃ run, (∀ ev ∈ run, Plain ev) ∧
      ∀ s, ((deployed D w challenge max events).clients s).app = (w.run D run).client s) ∧
    ((∀ s, (deployed D w challenge max events).Drained s) →
      ∃ run, (∀ ev ∈ run, Plain ev) ∧
        (∀ s, ((deployed D w challenge max events).clients s).app = (w.run D run).client s) ∧
        ∀ m, (deployed D w challenge max events).relay.broker.queue m = (w.run D run).mailbox m) := by
  constructor
  · obtain ⟨run, hplain, hclient⟩ := h.runs hquiet
    exact ⟨run, hplain, hclient⟩
  · intro hdrained
    obtain ⟨acts, hclient, hhistory, hbroker⟩ := (roomy_clients h.possible h.room).2 hdrained
    obtain ⟨run, hplain, hshows⟩ := hquiet.shows.run acts (hhistory ▸ h.sends)
    refine ⟨run, hplain, fun s => (hclient s).symm.trans (congrFun hshows.client s), fun m => ?_⟩
    exact (congrFun hbroker m).symm.trans (hshows.queue m)

end Chat

/-! ## A text from Alice to Bob -/

theorem sendable_of_push {f : Frame} (haction : f.action = .push)
    (hlen : f.payload.length ≤ maxPayloadSize.toNat) : Sendable f := by
  obtain ⟨action, mailboxId, payload⟩ := f
  obtain rfl : action = .push := haction
  exact ⟨.push mailboxId hlen, .inl rfl⟩

theorem sendable_of_poll {f : Frame} (h : f = Frame.createPoll f.mailboxId) : Sendable f :=
  h ▸ sendable_createPoll f.mailboxId

/-- The toy clients; only Alice starts rotations. The mailboxes below hold one frame each. -/
def calmSetting : Setting :=
  { toySetting with
    pfsMessageInterval := fun
      | .left => 1
      | .right => 0 }

theorem calmSetting_honest : calmSetting.Honest :=
  { toySetting_honest with }

theorem calmSetting_established : calmSetting.Established toyWorld :=
  { toySetting_established with }

def toyChallenge (_ : Side) : ByteVec challengSize := List.Vector.replicate 32 0

/-- Alice answers the challenge and hands a text over. -/
def aliceSends : List (DeploymentEvent Side Repl) :=
  [.client .left (.read (challengeFrame (toyChallenge .left)).serialize),
    .client .left (.command fun r =>
      r.handleSend (calmSetting.setup .left) (calmSetting.aliasName .left) [1]),
    .client .left .tick, .client .left (.written false)]

/-- The relay stores it, and Bob polls. -/
def bobPolls : List (DeploymentEvent Side Repl) :=
  aliceSends ++
    [.session .left (.read
      ((deployed calmSetting.toDuo toyWorld toyChallenge 1 aliceSends).clients
        .left).started.flatten),
    .client .right (.read (challengeFrame (toyChallenge .right)).serialize),
    .client .right .tick, .client .right (.written false), .session .right (.written false)]

/-- Bob gets the text. -/
def bobReads : List (DeploymentEvent Side Repl) :=
  let polls := bobPolls ++
    [.session .right (.read
      ((deployed calmSetting.toDuo toyWorld toyChallenge 1 bobPolls).clients
        .right).started.flatten)]
  polls ++ [.client .right (.read ((TcpSession.startedIn ((deployed calmSetting.toDuo toyWorld
    toyChallenge 1 polls).relay.sessions .right).trace).flatten.drop 498))]

theorem toyWorld_quiet : Quiet toyWorld := by
  refine ⟨fun s => ⟨?_, fun f hf => ?_⟩, rfl, fun _ => rfl⟩
  · cases s <;> decide +kernel
  · rw [(toyWorld_client s).2.2.2.2] at hf
    cases hf

theorem bobReads_usual : Usual calmSetting.toDuo toyWorld toyChallenge 1 bobReads where
  possible :=
    ⟨List.isPrefixOf_iff_prefix.mp (by decide +kernel), trivial,
      fun _ => sendable_of_push (by decide +kernel) (by decide +kernel), trivial,
      List.isPrefixOf_iff_prefix.mp (by decide +kernel),
      List.isPrefixOf_iff_prefix.mp (by decide +kernel),
      fun _ => sendable_of_poll (by decide +kernel), trivial, trivial,
      List.isPrefixOf_iff_prefix.mp (by decide +kernel),
      List.isPrefixOf_iff_prefix.mp (by decide +kernel), trivial⟩
  commands := by
    intro s f hf
    simp only [bobReads, bobPolls, aliceSends, List.cons_append, List.nil_append, List.mem_cons,
      DeploymentEvent.client.injEq, NetworkEvent.command.injEq, reduceCtorEq, and_false, false_or,
      or_false, List.not_mem_nil] at hf
    obtain ⟨rfl, rfl⟩ := hf
    exact ⟨[1], rfl⟩
  room := by decide +kernel

/-- The world has a run in which Bob is shown the text. -/
theorem chat_world_toy : ∃ run, (∀ ev ∈ run, Plain ev) ∧
    .newMessage (ascii "alice") [1] ∈
      ((toyWorld.run calmSetting.toDuo run).client .right).notices := by
  obtain ⟨run, hplain, hclient⟩ := (chat_world toyWorld_quiet bobReads_usual).1
  refine ⟨run, hplain, ?_⟩
  rw [← hclient]
  decide +kernel

/-! ## The keys of two clients -/

section Agreement

open Setting Lib.Rotation

variable {G : Setting} {w : World} {v : Network} {t : Side}

/-- A client that starts no rotations of its own stays idle when it sends. -/
theorem handleSend_pfsState {E : Setup} {r : Repl} {a : Bytes} {c : Contact}
    (hinterval : E.pfsMessageInterval = 0) (hc : r.addressBook.getContact a = some c)
    (hcomplete : c.initialPfsComplete = true) (text : Bytes) :
    ∃ c' ∈ (r.handleSend E a text).addressBook.getContact a, c'.pfsState = c.pfsState := by
  have hcheck : ∀ r', Repl.checkMessageInterval E r' c = (r', c) := by
    intro r'
    unfold Repl.checkMessageInterval
    rw [if_neg]
    rintro ⟨hpos, -⟩
    rw [hinterval] at hpos
    exact absurd hpos (by decide)
  refine ⟨{ c with messageCounter := c.messageCounter + 1 }, ?_, rfl⟩
  rw [Repl.handleSend_complete r a text hc hcomplete, Repl.queueText_addressBook]
  unfold Repl.prepareText
  dsimp only
  rw [hcheck]
  exact AddressBook.getContact_putContact ..

/-- The network in which `t` waits for nothing: only the other party rotates. -/
structure OneSided (G : Setting) (t : Side) (w : World) (v : Network) : Prop where
  rel : G.Rel w v
  agreement : Agreement v
  idle : (v.party t).pending = none

/-- **One event of the clients keeps this.** -/
theorem OneSided.step (hG : G.Honest) (hinterval : G.pfsMessageInterval t = 0)
    (h : OneSided G t w v) {ev : Event} (hev : Plain ev) :
    ∃ v', OneSided G t (w.step G.toDuo ev) v' := by
  obtain ⟨v', hfollows, hrel'⟩ := step_follows hG h.rel (h.rel.expected h.agreement) ev
    (fun s hs => by subst hs; exact hev.elim)
  refine ⟨v', hrel', hfollows.agreement h.rel h.agreement ?_ ?_, ?_⟩
  · -- a request can only come from the other party, and `t` has none out
    rintro s m l e rfl hm hreads hb
    rcases Side.eq_or_eq_other t s with rfl | rfl
    · exact h.idle
    · have hmem : m ∈ v.incoming t.other := by
        rw [hm]
        exact List.mem_cons_self
      have hdest := h.rel.dest t.other m hmem
      refine absurd ?_ ((h.agreement.requests t).none_of_idle h.idle m
        ((v.mem_all t.other).mpr (.inr (.inr (.inr (.inl hmem))))))
      exact ⟨hdest, by rw [hb]; rfl⟩
  · rintro s rfl
    exact hev.elim
  · by_cases hsend : ∃ text, ev = .send t text
    · obtain ⟨text, rfl⟩ := hsend
      obtain ⟨c, hc, hagrees⟩ := Setting.Client.contact h.rel t
      obtain ⟨c', hc', hstate⟩ := handleSend_pfsState (E := G.setup t) hinterval hc hagrees.complete
        text
      refine hrel'.pending_none (c := c') ?_ (hstate.trans (hagrees.idle_iff.mpr h.idle))
      show ((w.setClient t _).client t).addressBook.getContact _ = _
      rw [World.setClient_self]
      exact hc'
    · exact hfollows.pending_none h.idle fun text heq => hsend ⟨text, heq⟩

theorem OneSided.run (hG : G.Honest) (hinterval : G.pfsMessageInterval t = 0)
    (h : OneSided G t w v) {run : List Event} (hplain : ∀ ev ∈ run, Plain ev) :
    ∃ v', OneSided G t (w.run G.toDuo run) v' := by
  induction run generalizing w v with
  | nil => exact ⟨v, h⟩
  | cons ev run ih =>
      obtain ⟨v', h'⟩ := h.step hG hinterval (hplain ev List.mem_cons_self)
      exact ih h' fun ev' hev' => hplain ev' (List.mem_cons_of_mem ev hev')

/-- **The keys of two clients fit.** Two clients with a session are connected to one relay, and
one of them starts no rotations of its own. Whatever they send, and however the bytes travel:
when both are idle, the tx half of one session is the rx half of the other. -/
theorem chat_agreement (hG : G.Honest) (hw : G.Established w)
    (hconnected : ∀ s, (w.client s).connected = true) (hinterval : G.pfsMessageInterval t = 0)
    {challenge : Side → ByteVec challengSize} {max : UInt32}
    {events : List (DeploymentEvent Side Repl)} (h : Usual G.toDuo w challenge max events)
    (hidle : ({ client := fun s => ((deployed G.toDuo w challenge max events).clients s).app } :
      World).Idle G.toDuo) :
    ({ client := fun s => ((deployed G.toDuo w challenge max events).clients s).app } :
      World).Mirrored G.toDuo := by
  have hquiet : Quiet w := by
    refine ⟨fun s => ⟨hconnected s, fun f hf => ?_⟩, hw.relay, hw.incoming⟩
    rw [hw.outbox s] at hf
    cases hf
  obtain ⟨run, hplain, hclient⟩ := h.runs hquiet
  obtain ⟨v, hone⟩ := OneSided.run hG hinterval
    ⟨hw.rel, initialNetwork_agreement, rfl⟩ hplain
  have hsame : (fun s => ((deployed G.toDuo w challenge max events).clients s).app) =
      (w.run G.toDuo run).client := funext hclient
  rw [hsame] at hidle ⊢
  exact hone.rel.mirrored hone.agreement hidle

/-- Alice and Bob when the text has arrived. -/
theorem chat_agreement_toy :
    ({ client := fun s => ((deployed calmSetting.toDuo toyWorld toyChallenge 1 bobReads).clients
      s).app } : World).Mirrored calmSetting.toDuo :=
  chat_agreement (t := .right) calmSetting_honest calmSetting_established
    (fun s => (toyWorld_quiet.online s).connected) rfl bobReads_usual (by decide +kernel)

end Agreement

end BlankChat.System
