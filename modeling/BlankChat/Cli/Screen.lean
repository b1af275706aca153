import BlankChat.Cli.ContactStep
import BlankChat.Cli.Dispatch

/-!
# What a client reports

Of the lines that a client prints, two tell what became of a text: one shows a text that
came in, the other reports that a text was delivered. These are the news. Each handler but
two prints none; `HandleTextMessage` shows the text it is given, and `ProcessAckFrame`
reports one delivery.
-/

namespace BlankChat.Cli

open Lib BlankChat.Core Crypto Protocol Client

/-- A text that came in, or the delivery of one. -/
def Notice.isNews : Notice → Bool
  | .newMessage _ _ | .delivered _ => true
  | _ => false

/-- The text that a line shows, with the alias. -/
def Notice.shown? : Notice → Option (Bytes × Bytes)
  | .newMessage a t => some (a, t)
  | _ => none

namespace Repl

def news (r : Repl) : List Notice := r.notices.filter Notice.isNews

/-- The texts on the screen. -/
def shown (r : Repl) : List (Bytes × Bytes) := r.notices.filterMap Notice.shown?

/-- How often a delivery to the alias was reported. -/
def told (r : Repl) (a : Bytes) : ℕ := r.notices.count (.delivered a)

theorem shown_eq (r : Repl) : r.shown = r.news.filterMap Notice.shown? := by
  unfold shown news
  rw [List.filterMap_filter]
  refine List.filterMap_congr ?_
  intro n _
  cases n <;> rfl

theorem told_eq (r : Repl) (a : Bytes) : r.told a = r.news.count (.delivered a) := by
  unfold told news
  rw [List.count_filter]
  rfl

variable {E : Setup} {r r' : Repl}

theorem shown_of_news (h : r'.news = r.news) : r'.shown = r.shown := by
  rw [shown_eq, shown_eq, h]

theorem told_of_news (h : r'.news = r.news) (a : Bytes) : r'.told a = r.told a := by
  rw [told_eq, told_eq, h]

theorem news_print (r : Repl) (n : Notice) :
    (r.print n).news = if n.isNews then r.news ++ [n] else r.news := by
  unfold news print
  rw [List.filter_append]
  cases hn : n.isNews with
  | true => rw [List.filter_cons_of_pos hn, List.filter_nil, if_pos rfl]
  | false =>
      rw [List.filter_cons_of_neg (by rw [hn]; decide), List.filter_nil, List.append_nil,
        if_neg (by decide)]

/-! ## Handlers without news -/

variable (r) (a : Bytes) (c : Contact)

theorem initiatePfsRotation_news : (r.initiatePfsRotation E c).2.1.news = r.news := by
  unfold initiatePfsRotation generate encrypt
  dsimp only
  split
  · rfl
  · split
    · next h => rw [← (Prod.mk.inj h).2]; rfl
    · next h =>
        obtain ⟨-, rfl⟩ := Prod.mk.inj h
        split
        · next h' => rw [← (Prod.mk.inj h').2]; rfl
        · next h' => rw [← (Prod.mk.inj h').2]; rfl

theorem maybeStartInitialPfs_news : (r.maybeStartInitialPfs E a c).1.news = r.news := by
  unfold maybeStartInitialPfs
  split
  · rfl
  · have h := initiatePfsRotation_news (E := E) r c
    split
    · next heq =>
        rw [heq] at h
        exact (news_print _ _).trans h
    · next heq =>
        rw [heq] at h
        exact h

theorem checkMessageInterval_news : (r.checkMessageInterval E c).1.news = r.news := by
  unfold checkMessageInterval
  split
  · exact (initiatePfsRotation_news (r.print .thresholdReached) c).trans (news_print _ _)
  · rfl

theorem startPendingInitialPfs_news : (r.startPendingInitialPfs E).news = r.news := by
  unfold startPendingInitialPfs
  generalize r.contactAliases = l
  induction l generalizing r with
  | nil => rfl
  | cons a l ih =>
      rw [List.foldl_cons, ih]
      split
      · exact maybeStartInitialPfs_news r a _
      · rfl

theorem handleConnect_news : (r.handleConnect E).news = r.news :=
  (startPendingInitialPfs_news _).trans (news_print _ _)

theorem queueText_news (text : Bytes) : (r.queueText E a c text).news = r.news := by
  unfold queueText encrypt
  split
  · next h =>
      rw [← (Prod.mk.inj h).2]
      exact news_print _ _
  · next h =>
      rw [← (Prod.mk.inj h).2]
      exact news_print _ _

theorem handleSend_news (text : Bytes) : (r.handleSend E a text).news = r.news := by
  unfold handleSend
  split
  · exact news_print _ _
  · next c _ =>
      split
      · exact (news_print _ _).trans (maybeStartInitialPfs_news r a c)
      · exact (queueText_news _ a _ text).trans (checkMessageInterval_news _ c)

theorem getNextFrameForCBR_news : r.getNextFrameForCBR.2.news = r.news := by
  unfold getNextFrameForCBR
  split
  · rfl
  · split <;> rfl

theorem answerRotation_news (e : PublicKeyType) (k : EphemeralKey) :
    (r.answerRotation E a c e k).1.news = r.news := by
  rw [answerRotation_eq]
  unfold encrypt
  split
  · next h => rw [← (Prod.mk.inj h).2]; rfl
  · next h =>
      obtain ⟨-, rfl⟩ := Prod.mk.inj h
      split
      · rfl
      · exact news_print _ (.rotationAnswered a)

theorem handlePfsRotateRequest_news (plaintext : Bytes) :
    (r.handlePfsRotateRequest E a c plaintext).1.news = r.news := by
  unfold handlePfsRotateRequest generate
  split
  · rfl
  · split
    · rfl
    · split
      · exact (maybeStartInitialPfs_news _ a c).trans (news_print _ _)
      · split
        · next h => rw [← (Prod.mk.inj h).2]; rfl
        · next h =>
            obtain ⟨-, rfl⟩ := Prod.mk.inj h
            exact answerRotation_news _ a c _ _

theorem handlePfsRotateAck_news (plaintext : Bytes) :
    (r.handlePfsRotateAck E a c plaintext).1.news = r.news := by
  unfold handlePfsRotateAck
  split
  · split
    · rfl
    · dsimp only
      split
      · rfl
      · split
        · rfl
        · exact news_print _ (.rotationCompleted a)
  · exact news_print _ _

theorem dropOldMailbox_news (usedOld : Bool) :
    (r.dropOldMailbox a c usedOld).1.news = r.news := by
  unfold dropOldMailbox
  split
  · exact news_print _ (.transitionConfirmed a)
  · rfl

/-! ## Handlers with news -/

theorem handleTextMessage_news (plaintext text : Bytes) :
    (r.handleTextMessage E a c plaintext text).news = r.news ++ [.newMessage a text] := by
  unfold handleTextMessage encrypt
  dsimp only
  split
  · next h =>
      rw [← (Prod.mk.inj h).2]
      exact news_print _ _
  · next h =>
      rw [← (Prod.mk.inj h).2]
      exact (news_print _ .ackQueued).trans (news_print _ _)

/-- The text of a contact with a session is shown; nothing else in a PUSH is news. -/
theorem dispatch_news (plaintext : Bytes) :
    (r.dispatch E a c plaintext).1.news =
      if c.initialPfsComplete then
        r.news ++ ((parseTextMessage plaintext).map fun text => .newMessage a text).toList
      else r.news := by
  cases hparse : parseTextMessage plaintext with
  | some text =>
      rw [dispatch_of_text hparse]
      cases c.initialPfsComplete with
      | true => exact handleTextMessage_news r a c plaintext text
      | false => exact news_print r .textBeforeHandshake
  | none =>
      have hsame : (r.dispatch E a c plaintext).1.news = r.news := by
        unfold dispatch
        split
        · next hopcode =>
            rw [parseTextMessage, if_pos hopcode] at hparse
            cases hparse
        · exact handlePfsRotateRequest_news r a c plaintext
        · exact handlePfsRotateAck_news r a c plaintext
        · rfl
      rw [hsame, Option.map_none, Option.toList_none, List.append_nil, ite_self]

theorem onFrameReceived_push_news {f : Frame} {plaintext : Bytes} {r : Repl}
    (hrouted : Routed r f a c) (hpush : f.action = .push)
    (hdec : decryptAndUnpad E.sodium (selectedKey c f) f.payload = some plaintext)
    (hcomplete : c.initialPfsComplete = true) :
    (r.onFrameReceived E f).news =
      r.news ++ ((parseTextMessage plaintext).map fun text => .newMessage a text).toList := by
  have hkept : (r.dropOldMailbox a c (usedOldKey c f.mailboxId)).2.initialPfsComplete = true := by
    unfold dropOldMailbox
    split <;> exact hcomplete
  rw [onFrameReceived_push hrouted hpush hdec]
  show (dispatch E _ a _ plaintext).1.news = _
  rw [dispatch_news, hkept, if_pos rfl, dropOldMailbox_news]

theorem onFrameReceived_ack_news {f : Frame} {id : Bytes} {r : Repl}
    (hrouted : Routed r f a c) (hack : f.action = .ack)
    (hdec : decryptAndUnpad E.sodium (selectedKey c f) f.payload = some id) :
    (r.onFrameReceived E f).news = r.news ++ [.delivered a] := by
  unfold selectedKey at hdec
  unfold onFrameReceived
  rw [if_neg (by rw [hack]; decide)]
  dsimp only
  rw [hrouted.found, if_neg hrouted.nonempty, hrouted.contact, hack]
  dsimp only
  unfold processAckFrame
  rw [hdec]
  exact news_print _ _

end Repl

end BlankChat.Cli
