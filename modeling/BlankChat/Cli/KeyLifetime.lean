import BlankChat.Cli.DrawOwner

/-!
# How long a key is used

`HandleSend` counts the texts and starts a rotation when the counter has reached the
interval. The counter starts again when a rotation is requested, answered or completed,
but only the last two change the key. As long as no rotation is under way, it is the
number of texts under the current key. While a request is out, texts go on under a key
for which the request was made, unless a request of the peer is answered meanwhile: then
the key is new, the state still says that a request is out, and none follows.

Main result: `key_lifetime`; `crossing_requests` is a run in which requests cross.
-/

namespace BlankChat.Cli

open Lib BlankChat.Core Crypto Protocol Client Lib.Ownership

/-! ## The log of a process -/

abbrev Log : Type := List (SymmetricKey × Bytes)

instance (plaintext : Bytes) : Decidable (IsText plaintext) :=
  inferInstanceAs (Decidable (extractOpcode plaintext = some .textMessage))

/-- How many texts were encrypted under the key. -/
def textsUnder (key : SymmetricKey) (log : Log) : ℕ :=
  log.countP fun p => p.1 = key ∧ IsText p.2

/-- A rotation request was encrypted under the key. -/
def RequestedUnder (key : SymmetricKey) (log : Log) : Prop :=
  ∃ p ∈ log, p.1 = key ∧ extractOpcode p.2 = some .pfsRotateRequest

/-- A text that comes after `N` others under its key comes after a request under it. -/
def Limited (N : ℕ) (log : Log) : Prop :=
  ∀ l₁ p l₂, log = l₁ ++ p :: l₂ → IsText p.2 → N ≤ textsUnder p.1 l₁ → RequestedUnder p.1 l₁

section Logs

variable {N : ℕ} {key : SymmetricKey} {log l : Log}

theorem textsUnder_append (key : SymmetricKey) (log l : Log) :
    textsUnder key (log ++ l) = textsUnder key log + textsUnder key l :=
  List.countP_append

theorem textsUnder_eq_zero (h : ∀ p ∈ log, IsText p.2 → p.1 ≠ key) : textsUnder key log = 0 := by
  refine List.countP_eq_zero.mpr ?_
  intro p hp htext
  obtain ⟨hkey, htext⟩ := of_decide_eq_true htext
  exact h p hp htext hkey

theorem textsUnder_quiet (h : ∀ p ∈ l, ¬ IsText p.2) :
    textsUnder key (log ++ l) = textsUnder key log := by
  rw [textsUnder_append, textsUnder_eq_zero fun p hp htext => absurd htext (h p hp), Nat.add_zero]

theorem RequestedUnder.append (h : RequestedUnder key log) (l : Log) :
    RequestedUnder key (log ++ l) := by
  obtain ⟨p, hp, hreq⟩ := h
  exact ⟨p, List.mem_append_left l hp, hreq⟩

theorem Limited.append (h : Limited N log)
    (hl : ∀ l₁ p l₂, l = l₁ ++ p :: l₂ → IsText p.2 → N ≤ textsUnder p.1 (log ++ l₁) →
      RequestedUnder p.1 (log ++ l₁)) : Limited N (log ++ l) := by
  intro l₁ p l₂ heq htext hmany
  rcases List.append_eq_append_iff.mp heq with ⟨l', rfl, hl'⟩ | ⟨l', hlog, hl'⟩
  · exact hl l' p l₂ hl' htext hmany
  · cases l' with
    | nil =>
        rw [List.append_nil] at hlog
        subst hlog
        have hmany' : N ≤ textsUnder p.1 (log ++ []) := by rwa [List.append_nil]
        have hreq := hl [] p l₂ hl'.symm htext hmany'
        rwa [List.append_nil] at hreq
    | cons q l' =>
        obtain ⟨rfl, -⟩ := List.cons.inj hl'
        exact h l₁ p l' hlog htext hmany

end Logs

/-! ## Draws and send keys -/

section Draws

variable {E : Setup} {N : ℕ} {c : Contact} {n : ℕ}

/-- The draw behind the send key of a contact, and the one that is pending. -/
def TxUse (E : Setup) (N : ℕ) (c : Contact) (n : ℕ) : Prop :=
  Current E N DerivedMailboxes.txKey c n ∨ PendingDraw E N c n

theorem txUse (hf : Distinct E N DerivedMailboxes.txKey) : DrawUse E N (TxUse E N) where
  bootstrap a pk d n h := by
    rcases h with ⟨hcomplete, -⟩ | ⟨-, k, hk, -⟩
    · cases hcomplete
    · cases hk
  change o c c' n hle hN hc hchange h := by
    rcases h with h | h
    · rcases h.change hf hle hN hc hchange with h | h | h
      · exact .inl (.inl h)
      · exact .inl (.inr h)
      · exact .inr h
    · rcases h.change hf hN hchange with h | h
      · exact .inl (.inr h)
      · exact .inr h
  counted _ _ h := h
  persistent c n h := by
    rcases h with h | ⟨-, k, hk, -⟩
    · exact .inl h
    · cases hk

end Draws

/-! ## The invariant -/

/-- What a process has written to the log since it started after `m` entries. -/
def since (m : ℕ) (r : Repl) : Log := r.encryptions.drop m

/-- The key of a text is that of an exchange with draw `n`. -/
def KeyOf (E : Setup) (n : ℕ) (key : SymmetricKey) : Prop :=
  ∃ k d, Exchange E n k d ∧ key = d.txKey

/-- The relation between counters, keys and the log of a process; the last two parts are
kept if no request is answered while one is out. -/
structure Metered (E : Setup) (N m : ℕ) (strict : Prop) (r : Repl) : Prop where
  started : m ≤ r.encryptions.length
  texts : ∀ p ∈ since m r, IsText p.2 → ∃ n < r.keyDraws, KeyOf E n p.1 ∧
    ∀ a c, r.addressBook.getContact a = some c → ¬ PendingDraw E N c n
  idle : ∀ a c, r.addressBook.getContact a = some c → c.initialPfsComplete = true →
    c.pfsState = .idle → textsUnder c.txKey (since m r) = c.messageCounter.toNat ∧
      c.messageCounter ≤ E.pfsMessageInterval
  requested : strict → ∀ a c, r.addressBook.getContact a = some c →
    c.initialPfsComplete = true → c.pfsState = .rotationRequested →
      RequestedUnder c.txKey (since m r)
  limited : strict → Limited E.pfsMessageInterval.toNat (since m r)

namespace Metered

variable {E : Setup} {G : Guard} {N m : ℕ} {strict : Prop} {r r' : Repl}

theorem since_append {l : Log} (hm : m ≤ r.encryptions.length)
    (hlog : r'.encryptions = r.encryptions ++ l) : since m r' = since m r ++ l := by
  unfold since
  rw [hlog, List.drop_append_of_le_length hm]

/-- What a new or changed contact must fulfil, when `l` is added to the log. -/
structure Fits (E : Setup) (N m : ℕ) (strict : Prop) (r : Repl) (l : Log) (a : Bytes)
    (c' : Contact) : Prop where
  pending : ∀ n < r.keyDraws, PendingDraw E N c' n →
    ∃ c, r.addressBook.getContact a = some c ∧ PendingDraw E N c n
  idle : c'.initialPfsComplete = true → c'.pfsState = .idle →
    textsUnder c'.txKey (since m r) = c'.messageCounter.toNat ∧
      c'.messageCounter ≤ E.pfsMessageInterval
  requested : strict → c'.initialPfsComplete = true → c'.pfsState = .rotationRequested →
    RequestedUnder c'.txKey (since m r ++ l)

theorem extend (h : Metered E N m strict r) {l : Log} (hdraws : r.keyDraws ≤ r'.keyDraws)
    (hlog : r'.encryptions = r.encryptions ++ l) (hl : ∀ p ∈ l, ¬ IsText p.2)
    (hcontacts : ∀ a c', r'.addressBook.getContact a = some c' →
      r.addressBook.getContact a = some c' ∨ Fits E N m strict r l a c') :
    Metered E N m strict r' := by
  have hsince := since_append h.started hlog
  refine ⟨?_, ?_, ?_, ?_, ?_⟩
  · rw [hlog, List.length_append]
    exact h.started.trans (Nat.le_add_right _ _)
  · intro p hp htext
    rw [hsince] at hp
    rcases List.mem_append.mp hp with hp | hp
    · obtain ⟨n, hn, hkey, hfree⟩ := h.texts p hp htext
      refine ⟨n, hn.trans_le hdraws, hkey, ?_⟩
      intro a c' hc' hpending
      rcases hcontacts a c' hc' with hc' | hfits
      · exact hfree a c' hc' hpending
      · obtain ⟨c, hc, hpending⟩ := hfits.pending n hn hpending
        exact hfree a c hc hpending
    · exact absurd htext (hl p hp)
  · intro a c' hc' hcomplete hstate
    rw [hsince, textsUnder_quiet hl]
    rcases hcontacts a c' hc' with hc' | hfits
    · exact h.idle a c' hc' hcomplete hstate
    · exact hfits.idle hcomplete hstate
  · intro hstrict a c' hc' hcomplete hstate
    rw [hsince]
    rcases hcontacts a c' hc' with hc' | hfits
    · exact (h.requested hstrict a c' hc' hcomplete hstate).append l
    · exact hfits.requested hstrict hcomplete hstate
  · intro hstrict
    rw [hsince]
    refine (h.limited hstrict).append ?_
    rintro l₁ p l₂ rfl htext -
    exact absurd htext (hl p (List.mem_append_right _ List.mem_cons_self))

/-- No text was encrypted under the key of a draw that is fresh or pending. -/
theorem unused (hf : Distinct E N DerivedMailboxes.txKey) (h : Metered E N m strict r)
    (hN : r.keyDraws ≤ N) {n : ℕ} (hn : n < N) {k : EphemeralKey} {d : DerivedMailboxes}
    (hd : Exchange E n k d)
    (hnew : r.keyDraws ≤ n ∨ ∃ a c, r.addressBook.getContact a = some c ∧ PendingDraw E N c n) :
    textsUnder d.txKey (since m r) = 0 := by
  refine textsUnder_eq_zero ?_
  intro p hp htext hkey
  obtain ⟨n', hn', ⟨k', d', hd', hkey'⟩, hfree⟩ := h.texts p hp htext
  obtain rfl := hf.draw_eq hn (hn'.trans_le hN) hd hd' (hkey.symm.trans hkey')
  rcases hnew with hfresh | ⟨a, c, hc, hpending⟩
  · exact Nat.not_lt.mpr hfresh hn'
  · exact hfree a c hc hpending

theorem change_fits (hf : Distinct E N DerivedMailboxes.txKey) (h : Metered E N m strict r)
    {items : List Item} {a : Bytes} {c c' : Contact} {l : Log}
    (hG : strict → ∀ c k e, G.answers c k e → c.pfsState ≠ .rotationRequested)
    (hdraws : r.keyDraws ≤ r'.keyDraws) (hN : r'.keyDraws ≤ N)
    (hlog : r'.encryptions = r.encryptions ++ l)
    (hc : r.addressBook.getContact a = some c) (hfrom : FromDraws E r.keyDraws c)
    (hchange : ContactChange E (.between G r r' items) c c') : Fits E N m strict r l a c' := by
  have hpending : ∀ n < r.keyDraws, PendingDraw E N c' n →
      ∃ c, r.addressBook.getContact a = some c ∧ PendingDraw E N c n := by
    intro n hn hp
    rcases hp.change hf hN hchange with hp | ⟨hlo, -⟩
    · exact ⟨c, hc, hp⟩
    · exact absurd hn (Nat.not_lt.mpr hlo)
  -- a contact with the same key, counter and state
  have hsame : ∀ c₁ : Contact, session c₁ = session c → c₁.messageCounter = c.messageCounter →
      c₁.pfsState = c.pfsState → c₁.initialPfsComplete = c.initialPfsComplete → c' = c₁ →
      Fits E N m strict r l a c' := by
    rintro c₁ hsession hcounter hstate hcomplete rfl
    have hkey : c'.txKey = c.txKey := congrArg DerivedMailboxes.txKey hsession
    refine ⟨hpending, ?_, ?_⟩
    · rw [hkey, hcounter, hstate, hcomplete]
      exact h.idle a c hc
    · rw [hkey, hstate, hcomplete]
      exact fun hstrict hcomplete hstate =>
        (h.requested hstrict a c hc hcomplete hstate).append l
  cases hchange with
  | step hstep =>
      cases hstep with
      | initiated hidle hlo hhi hk hrole hreq =>
          refine ⟨hpending, (fun _ hstate => by cases hstate), ?_⟩
          intro _ _ _
          have hin : _ ∈ List.drop r.encryptions.length r'.encryptions := hreq
          rw [hlog, List.drop_left] at hin
          exact ⟨_, List.mem_append_right _ hin, rfl, extractOpcode_buildPfsRotate _ _ _⟩
      | answered hrole hsig hlo hhi hk hsecret hanswers =>
          refine ⟨hpending, ?_, ?_⟩
          · intro _ _
            exact ⟨h.unused hf (hdraws.trans hN) (hhi.trans_le hN) ⟨hk, _, _, hsecret, rfl⟩
              (.inl hlo), UInt32.zero_le⟩
          · intro hstrict _ hstate
            have hstate : (if c.initialPfsComplete then c.pfsState else .idle) =
              PfsState.rotationRequested := hstate
            split at hstate
            · exact absurd hstate (hG hstrict _ _ _ hanswers)
            · cases hstate
      | keptOld =>
          refine hsame (keepOld c) ?_ ?_ ?_ ?_ rfl <;> unfold keepOld <;> split <;> rfl
      | completed hstate hpend hsig hsecret =>
          obtain ⟨n, hn, hk⟩ := hfrom.pending _ hpend
          have hnN := (hn.trans_le hdraws).trans_le hN
          refine ⟨hpending, ?_, (fun _ _ hstate => by cases hstate)⟩
          intro _ _
          exact ⟨h.unused hf (hdraws.trans hN) hnN ⟨hk, _, _, hsecret, rfl⟩
            (.inr ⟨a, c, hc, hnN, _, hpend, hk⟩), UInt32.zero_le⟩
  | droppedOld => exact hsame (droppedOld c) rfl rfl rfl rfl rfl

theorem text (hf : Distinct E N DerivedMailboxes.txKey) (h : Metered E N m strict r)
    (hN : r.keyDraws ≤ N) (hpath : Actions E {} r) {a text : Bytes} {c : Contact}
    (hbook : r'.addressBook = r.addressBook.putContact a (counted c))
    (hdraws : r'.keyDraws = r.keyDraws) (hc : r.addressBook.getContact a = some c)
    (hcomplete : c.initialPfsComplete = true) (hinterval : 0 < E.pfsMessageInterval)
    (hdue : ¬ Due E c)
    (hlog : r'.encryptions = r.encryptions ++ [(c.txKey, buildTextMessage text)]) :
    Metered E N m strict r' := by
  have hsince := since_append h.started hlog
  obtain ⟨-, hunmixed⟩ := ((unmixed_invariant hf {}).actions hpath).contacts a c hc
  obtain ⟨-, hformed⟩ := ((wellFormed_invariant E {}).actions hpath).contacts a c hc
  have howned := ((txUse hf).actions hpath hN).memory
  obtain ⟨n, hn, k, hd⟩ := hunmixed.draws.complete hcomplete
  have hcurrent : Current E N DerivedMailboxes.txKey c n :=
    ⟨hcomplete, hn.trans_le hN, k, _, hd, rfl⟩
  have hread : ∀ {a₁ c₁}, r'.addressBook.getContact a₁ = some c₁ →
      (a₁ = a ∧ c₁ = counted c) ∨ (a₁ ≠ a ∧ r.addressBook.getContact a₁ = some c₁) := by
    intro a₁ c₁ hc₁
    rw [hbook] at hc₁
    exact AddressBook.getContact_putContact_cases hc₁
  -- with a rotation under way the counter says nothing; otherwise it is below the interval
  have hbelow : c.pfsState = .idle → c.messageCounter < E.pfsMessageInterval := by
    intro hstate
    exact UInt32.not_le.mp fun hle => hdue ⟨hinterval, hle, hstate⟩
  have htext : textsUnder c.txKey [(c.txKey, buildTextMessage text)] = 1 := by
    unfold textsUnder
    rw [List.countP_cons_of_pos (by simp [IsText]), List.countP_nil]
  refine ⟨?_, ?_, ?_, ?_, ?_⟩
  · rw [hlog, List.length_append]
    exact h.started.trans (Nat.le_add_right _ _)
  · intro p hp hptext
    rw [hsince] at hp
    rw [hdraws]
    rcases List.mem_append.mp hp with hp | hp
    · obtain ⟨n', hn', hkey, hfree⟩ := h.texts p hp hptext
      refine ⟨n', hn', hkey, ?_⟩
      intro a₁ c₁ hc₁ hpending
      rcases hread hc₁ with ⟨-, rfl⟩ | ⟨-, hc₁⟩
      · exact hfree a c hc hpending
      · exact hfree a₁ c₁ hc₁ hpending
    · rw [List.mem_singleton.mp hp]
      refine ⟨n, hn, ⟨k, _, hd, rfl⟩, ?_⟩
      intro a₁ c₁ hc₁ hpending
      rcases hread hc₁ with ⟨-, rfl⟩ | ⟨ha, hc₁⟩
      · exact hunmixed.pending hN n hpending hcurrent
      · exact ha (howned.exclusive a₁ a c₁ c n hc₁ hc (.inr hpending) (.inl hcurrent))
  · intro a₁ c₁ hc₁ hcomplete₁ hstate
    rw [hsince, textsUnder_append]
    rcases hread hc₁ with ⟨-, rfl⟩ | ⟨ha, hc₁⟩
    · obtain ⟨hcount, -⟩ := h.idle a c hc hcomplete hstate
      have hlt := hbelow hstate
      have hlt' : c.messageCounter.toNat < E.pfsMessageInterval.toNat := hlt
      have hsize := E.pfsMessageInterval.toNat_lt
      have hnext : (c.messageCounter + 1).toNat = c.messageCounter.toNat + 1 := by
        rw [UInt32.toNat_add, UInt32.toNat_one, Nat.mod_eq_of_lt (by omega)]
      constructor
      · show textsUnder c.txKey _ + textsUnder c.txKey _ = (c.messageCounter + 1).toNat
        rw [hcount, htext, hnext]
      · show (c.messageCounter + 1).toNat ≤ E.pfsMessageInterval.toNat
        rw [hnext]
        exact hlt'
    · -- another contact has another key
      have hother : textsUnder c₁.txKey [(c.txKey, buildTextMessage text)] = 0 := by
        refine textsUnder_eq_zero ?_
        intro p hp _ hkey
        rw [List.mem_singleton.mp hp] at hkey
        have hcurrent₁ : Current E N DerivedMailboxes.txKey c₁ n :=
          ⟨hcomplete₁, hn.trans_le hN, k, _, hd, hkey.symm⟩
        exact ha (howned.exclusive a₁ a c₁ c n hc₁ hc (.inl hcurrent₁) (.inl hcurrent))
      rw [hother]
      exact h.idle a₁ c₁ hc₁ hcomplete₁ hstate
  · intro hstrict a₁ c₁ hc₁ hcomplete₁ hstate
    rw [hsince]
    rcases hread hc₁ with ⟨-, rfl⟩ | ⟨-, hc₁⟩
    · exact (h.requested hstrict a c hc hcomplete hstate).append _
    · exact (h.requested hstrict a₁ c₁ hc₁ hcomplete₁ hstate).append _
  · intro hstrict
    rw [hsince]
    refine (h.limited hstrict).append ?_
    intro l₁ p l₂ heq _ hmany
    obtain ⟨rfl, rfl, -⟩ : l₁ = [] ∧ p = (c.txKey, buildTextMessage text) ∧ l₂ = [] := by
      cases l₁ with
      | nil =>
          obtain ⟨rfl, rfl⟩ := List.cons.inj heq
          exact ⟨rfl, rfl, rfl⟩
      | cons q l₁ =>
          have hnil := (List.cons.inj heq).2
          exact absurd hnil.symm (by simp)
    rw [List.append_nil] at hmany ⊢
    cases hstate : c.pfsState with
    | idle =>
        obtain ⟨hcount, -⟩ := h.idle a c hc hcomplete hstate
        have hlt' : c.messageCounter.toNat < E.pfsMessageInterval.toNat := hbelow hstate
        have hmany' : E.pfsMessageInterval.toNat ≤ textsUnder c.txKey (since m r) := hmany
        omega
    | rotationRequested => exact h.requested hstrict a c hc hcomplete hstate
    | rotationResponding => exact absurd hstate hformed.not_responding

theorem action (hf : Distinct E N DerivedMailboxes.txKey) (hinterval : 0 < E.pfsMessageInterval)
    (hreliable : Reliable E G.draws N)
    (hG : strict → ∀ c k e, G.answers c k e → c.pfsState ≠ .rotationRequested)
    (hprocess : ¬ G.restarts) (hpath : Actions E {} r) (haction : Action E G r r')
    (hN : r'.keyDraws ≤ N) (h : Metered E N m strict r) : Metered E N m strict r' := by
  have hrN := haction.draws.trans hN
  cases haction with
  | quiet hquiet =>
      obtain ⟨l, hlog, hl⟩ := hquiet.log
      refine h.extend hquiet.draws hlog hl ?_
      intro a c hc
      exact .inl (hquiet.book ▸ hc)
  | @change r₁ _ a c c' hquiet hc hchange =>
      obtain ⟨l, hlog, hl⟩ := hquiet.log
      obtain ⟨-, hfrom⟩ := ((fromDraws_invariant E {}).actions hpath).contacts a c hc
      have hfits := h.change_fits hf hG hquiet.draws hN hlog hc hfrom hchange
      refine h.extend (l := l) hquiet.draws hlog hl ?_
      intro a₁ c₁ hc₁
      rcases AddressBook.getContact_putContact_cases hc₁ with ⟨rfl, rfl⟩ | ⟨-, hc₁⟩
      · exact .inr hfits
      · exact .inl (hquiet.book ▸ hc₁)
  | save =>
      refine h.extend (l := []) le_rfl (List.append_nil _).symm (List.forall_mem_nil _) ?_
      exact fun a c hc => .inl hc
  | text hbook hdraws hc hcomplete hdue hlog =>
      refine h.text hf hrN hpath hbook hdraws hc hcomplete hinterval (hdue ?_) hlog
      exact ⟨fun n hlo hhi => hreliable.keys n hlo (hhi.trans_le hrN), hreliable.encrypts⟩
  | add =>
      refine h.extend (l := []) le_rfl (List.append_nil _).symm (List.forall_mem_nil _) ?_
      intro a₁ c₁ hc₁
      rcases AddressBook.getContact_putContact_cases hc₁ with ⟨rfl, rfl⟩ | ⟨-, hc₁⟩
      · refine .inr ⟨?_, (fun hcomplete => by cases hcomplete), (fun _ hcomplete => by cases hcomplete)⟩
        rintro n hn ⟨-, k, hk, -⟩
        cases hk
      · exact .inl hc₁
  | tick _ hbook hdraws hlog =>
      refine h.extend (l := []) hdraws.ge (by rw [hlog, List.append_nil]) (List.forall_mem_nil _) ?_
      exact fun a c hc => .inl (hbook ▸ hc)
  | restart hrestarts => exact absurd hrestarts hprocess

theorem restart (hpath : Actions E {} r) :
    Metered E N r.encryptions.length strict (r.restart E) := by
  have hsince : since r.encryptions.length (r.restart E) = [] := List.drop_length
  obtain ⟨cs, hfile, -⟩ := ((fromDraws_invariant E {}).actions hpath).file
  refine ⟨le_rfl, ?_, ?_, ?_, ?_⟩
  · intro p hp
    rw [hsince] at hp
    cases hp
  · intro a c hc _ _
    obtain ⟨c₀, -, -, rfl⟩ := getContact_restart hfile hc
    rw [hsince]
    exact ⟨rfl, UInt32.zero_le⟩
  · intro _ a c hc _ hstate
    obtain ⟨c₀, -, -, rfl⟩ := getContact_restart hfile hc
    cases hstate
  · intro _ l₁ p l₂ heq
    rw [hsince] at heq
    exact absurd heq.symm (by simp)

end Metered

/-! ## The main result -/

/-- No request is answered while one is out. -/
def NoCrossing (E : Setup) (r : Repl) (i : Input) : Prop :=
  ∀ c k e, Repl.answering E r i = some (c, k, e) → c.pfsState ≠ .rotationRequested

theorem run_metered {E : Setup} (strict : Prop) (earlier inputs : List Input)
    (hinterval : 0 < E.pfsMessageInterval) (hprocess : Input.restart ∉ inputs)
    (hreliable : Reliable E (Repl.run E {} earlier).keyDraws
      (Repl.run E ((Repl.run E {} earlier).restart E) inputs).keyDraws)
    (hf : Distinct E (Repl.run E ((Repl.run E {} earlier).restart E) inputs).keyDraws
      DerivedMailboxes.txKey)
    (hstrict : strict →
      Run.Along (Repl.step E) (NoCrossing E) ((Repl.run E {} earlier).restart E) inputs) :
    Metered E (Repl.run E ((Repl.run E {} earlier).restart E) inputs).keyDraws
      (Repl.run E {} earlier).encryptions.length strict
      (Repl.run E ((Repl.run E {} earlier).restart E) inputs) := by
  generalize hN : (Repl.run E ((Repl.run E {} earlier).restart E) inputs).keyDraws = N at *
  have hearlier : Actions E {} (Repl.run E {} earlier) := Repl.run_actions {} earlier
  have hstart : Actions E {} ((Repl.run E {} earlier).restart E) :=
    hearlier.tail (.restart trivial)
  let G : Guard :=
    { draws := (Repl.run E {} earlier).keyDraws
      answers := fun c _ _ => strict → c.pfsState ≠ .rotationRequested
      restarts := False }
  have hguarded : GuardedActions E G ((Repl.run E {} earlier).restart E)
      (Repl.run E ((Repl.run E {} earlier).restart E) inputs) := by
    refine Repl.along_actions (C := fun r i => (Repl.run E {} earlier).keyDraws ≤ r.keyDraws ∧
      i ≠ .restart ∧ (strict → NoCrossing E r i)) ?_ ?_
    · rintro r i ⟨hdraws, hi, hcross⟩
      exact { draws := hdraws, answers := fun c k e hanswers hs => hcross hs c k e hanswers,
              restarts := hi }
    · refine Run.Along.and ?_ (Run.Along.and ?_ ?_)
      · refine Run.along_of_invariant
          (P := fun r : Repl => (Repl.run E {} earlier).keyDraws ≤ r.keyDraws) ?_ le_rfl
        intro r i hr
        exact Repl.actions_induction (P := fun r' => (Repl.run E {} earlier).keyDraws ≤ r'.keyDraws)
          (fun _ _ haction h => h.trans haction.draws) (Repl.step_actions r i) hr
      · refine Run.along_of_forall_mem ?_
        rintro r i hi rfl
        exact hprocess hi
      · by_cases hs : strict
        · exact Run.Along.mono (P := fun _ => True) (hstrict hs) (fun _ _ _ _ => trivial) trivial
            fun _ _ _ h _ => h
        · exact Run.along_of_forall_mem fun _ _ _ hs' => absurd hs' hs
  have hP : Actions E {} (Repl.run E ((Repl.run E {} earlier).restart E) inputs) ∧
      ((Repl.run E ((Repl.run E {} earlier).restart E) inputs).keyDraws ≤ N →
        Metered E N (Repl.run E {} earlier).encryptions.length strict
          (Repl.run E ((Repl.run E {} earlier).restart E) inputs)) := by
    refine Repl.actions_induction (P := fun r => Actions E {} r ∧ (r.keyDraws ≤ N →
      Metered E N (Repl.run E {} earlier).encryptions.length strict r)) ?_ hguarded ?_
    · rintro r r' haction ⟨hpath, hr⟩
      refine ⟨hpath.tail (haction.mono {}), ?_⟩
      intro hle
      exact (hr (haction.draws.trans hle)).action (G := G) hf hinterval hreliable
        (fun hs c k e hanswers => hanswers hs) id hpath haction hle
    · exact ⟨hstart, fun _ => Metered.restart hearlier⟩
  exact hP.2 hN.le

/-- **How long a key is used.** In every run of one process, started on the files of
earlier ones, in which key pairs are generated and encryption succeeds: whenever no
rotation is under way after the initial handshake, the counter of a contact is the number
of texts that the process has encrypted under the current send key, and at most the
interval. If no request of a peer is answered while a request is out, every text that
comes after as many others under its key comes after a request under this key. -/
theorem key_lifetime (E : Setup) (earlier inputs : List Input)
    (hinterval : 0 < E.pfsMessageInterval) (hprocess : Input.restart ∉ inputs)
    (hreliable : Reliable E (Repl.run E {} earlier).keyDraws
      (Repl.run E ((Repl.run E {} earlier).restart E) inputs).keyDraws)
    (hdistinct : Distinct E (Repl.run E ((Repl.run E {} earlier).restart E) inputs).keyDraws
      DerivedMailboxes.txKey) :
    let start := (Repl.run E {} earlier).restart E
    let r := Repl.run E start inputs
    let log := r.encryptions.drop start.encryptions.length
    (∀ a c, r.addressBook.getContact a = some c → c.pfsState = .idle →
      c.initialPfsComplete = true →
        textsUnder c.txKey log = c.messageCounter.toNat ∧
          c.messageCounter ≤ E.pfsMessageInterval) ∧
    (Run.Along (Repl.step E) (NoCrossing E) start inputs →
      Limited E.pfsMessageInterval.toNat log) := by
  constructor
  · have h := run_metered False earlier inputs hinterval hprocess hreliable hdistinct
      (fun h => h.elim)
    exact fun a c hc hstate hcomplete => h.idle a c hc hcomplete hstate
  · intro hcross
    have h := run_metered True earlier inputs hinterval hprocess hreliable hdistinct
      (fun _ => hcross)
    exact h.limited trivial

/-- Alice's key pairs are generated and told apart by the send keys, and encryption with
the transparent library succeeds. -/
theorem alice_reliable {lo hi : ℕ} (h : hi ≤ 32) : Reliable alice lo hi := by
  constructor
  · intro n _ hn hnone
    have hdraw : alice.tape.keypair n = some ⟨_, _⟩ := if_pos (hn.trans_le h)
    rw [hnone] at hdraw
    cases hdraw
  · intro key nonce plaintext hnone
    cases hnone

theorem alice_distinct (N : ℕ) : Distinct alice N DerivedMailboxes.txKey := by
  refine toySetup_distinct ?_ _ _ _ _
  intro secret secret' ours ours' theirs theirs' heq
  have hbyte : (secret.toList ++ ours.toList ++ theirs.toList).getD 32 0 =
      (secret'.toList ++ ours'.toList ++ theirs'.toList).getD 32 0 :=
    congrArg (fun v => v.toList.getD 1 0) heq
  rwa [(getD_parts _ _ _).1, (getD_parts _ _ _).1] at hbyte

/-- Alice sends two texts in a new process; the second one comes after a request. -/
def aliceSendsTwo : List Input := [.send (ascii "bob") (ascii "1"), .send (ascii "bob") (ascii "2")]

theorem key_lifetime_two :
    let start := (Repl.run alice {} aliceCompletes).restart alice
    let log := (Repl.run alice start aliceSendsTwo).encryptions.drop start.encryptions.length
    Limited 1 log ∧ (log.map fun p => extractOpcode p.2) =
      [some .textMessage, some .pfsRotateRequest, some .textMessage] := by
  intro start log
  have hfacts : (Repl.run alice start aliceSendsTwo).keyDraws ≤ 32 ∧
      (log.map fun p => extractOpcode p.2) =
        [some .textMessage, some .pfsRotateRequest, some .textMessage] := by decide +kernel
  obtain ⟨-, hlimited⟩ := key_lifetime alice aliceCompletes aliceSendsTwo (by decide)
    (by simp [aliceSendsTwo]) (alice_reliable hfacts.1) (alice_distinct _)
  refine ⟨hlimited (Run.along_of_forall_mem ?_), hfacts.2⟩
  intro r i hi c k e hanswering
  rcases List.mem_cons.mp hi with rfl | hi
  · cases hanswering
  · obtain rfl := List.mem_singleton.mp hi
    cases hanswering

/-- A Bob who rotates after every message sends two texts; the second frame of three is
the request. -/
def bobRequest : List Frame :=
  ((queued { bob with pfsMessageInterval := 1 } (bobAnswers ++
    [.send (ascii "alice") (ascii "x"), .send (ascii "alice") (ascii "y")])).drop 2).take 1

/-- Alice's request is out when Bob's comes in, and Alice goes on sending. -/
def aliceCrosses : List Input :=
  aliceSendsTwo ++ bobRequest.map .receive ++
    [.send (ascii "bob") (ascii "3"), .send (ascii "bob") (ascii "4")]

/-- **Requests that cross.** With an interval of one message, Alice encrypts two texts
under the key that comes from answering Bob's request, and no request of Alice's. -/
theorem crossing_requests :
    let start := (Repl.run alice {} aliceCompletes).restart alice
    let r := Repl.run alice start aliceCrosses
    let log := r.encryptions.drop start.encryptions.length
    ¬ Limited alice.pfsMessageInterval.toNat log ∧
      ∀ c ∈ r.addressBook.getContact (ascii "bob"), textsUnder c.txKey log = 2 ∧
        ∀ p ∈ log, p.1 = c.txKey → extractOpcode p.2 ≠ some .pfsRotateRequest := by
  intro start r log
  -- the sixth entry of the log is the second text under the new key
  have hfacts : (log = log.take 5 ++ log.getD 5 (⟨List.replicate 32 0, rfl⟩, []) :: log.drop 6 ∧
      IsText (log.getD 5 (⟨List.replicate 32 0, rfl⟩, [])).2 ∧
      1 ≤ textsUnder (log.getD 5 (⟨List.replicate 32 0, rfl⟩, [])).1 (log.take 5) ∧
      ∀ p ∈ log.take 5, p.1 = (log.getD 5 (⟨List.replicate 32 0, rfl⟩, [])).1 →
        extractOpcode p.2 ≠ some .pfsRotateRequest) ∧
      ∀ c ∈ r.addressBook.getContact (ascii "bob"), textsUnder c.txKey log = 2 ∧
        ∀ p ∈ log, p.1 = c.txKey → extractOpcode p.2 ≠ some .pfsRotateRequest := by
    decide +kernel
  obtain ⟨⟨hsplit, htext, hmany, hnone⟩, hcontact⟩ := hfacts
  refine ⟨?_, hcontact⟩
  intro hlimited
  obtain ⟨p, hp, hkey, hreq⟩ := hlimited _ _ _ hsplit htext hmany
  exact hnone p hp hkey hreq

end BlankChat.Cli
