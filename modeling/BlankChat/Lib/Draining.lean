import BlankChat.Lib.Handover

/-!
# The line to a party, and how it empties

Everything on its way to a party stands in one line: what the party has fetched, what waits
for it at the relay, what is in the outbox of the other. Sending does not change the line,
reading takes its head, and what is queued goes to its end. A poll may let a packet of one
epoch overtake packets of another; while a rotation is handed over safely, the only packets
that overtake are receipts (`Handover.texts_poll`).

The *load* of a network is the number of moves its packets can still make, those of the
answers they call for included. Every move lowers it, and in a network without a load
nothing is under way.
-/

namespace BlankChat.Lib.Rotation

variable {K T : Type}

namespace Body

def text? : Body K T → Option T
  | .text content => some content
  | _ => none

def isReceipt : Body K T → Bool
  | .receipt _ => true
  | _ => false

/-- A request or its acknowledgement. -/
def rotates (b : Body K T) : Bool := b.isRequest || b.isAck

/-- The packets that a packet stands for: itself and its answer. -/
def rank : Body K T → ℕ
  | .text _ | .request _ => 2
  | .receipt _ | .ack _ _ => 1

theorem text?_of_not_confirms {b : Body K T} (h : b.confirms = false) : b.text? = none := by
  cases b with
  | receipt content => rfl
  | text content => cases h
  | request e => cases h
  | ack e e' => cases h

theorem one_le_rank (b : Body K T) : 1 ≤ b.rank := by
  cases b <;> simp [rank]

theorem rank_le_two (b : Body K T) : b.rank ≤ 2 := by
  cases b <;> simp [rank]

end Body

namespace Net

/-! ## The line -/

def isTo (s : Side) (p : Packet K T) : Bool := p.dest = s

/-- What waits for a party to fetch it, in the order in which it was sent. -/
def waiting (v : Net K T) (s : Side) : List (Packet K T) :=
  v.relay.filter (isTo s) ++ (v.party s.other).out

/-- Everything on its way to a party. -/
def line (v : Net K T) (s : Side) : List (Packet K T) := v.incoming s ++ v.waiting s

/-- The texts on their way to a party. -/
def texts (v : Net K T) (s : Side) : List T := (v.line s).filterMap fun p => p.body.text?

/-- The number of receipts on their way to a party. -/
def receipts (v : Net K T) (s : Side) : ℕ := (v.line s).countP fun p => p.body.isReceipt

variable {v v' : Net K T} {s t : Side} {x m : Packet K T} {l : List (Packet K T)}

theorem line_congr (hincoming : v'.incoming s = v.incoming s) (hwaiting : v'.waiting s = v.waiting s) :
    v'.line s = v.line s := by
  unfold line
  rw [hincoming, hwaiting]

theorem texts_congr (h : v'.line s = v.line s) : v'.texts s = v.texts s := by
  unfold texts
  rw [h]

theorem receipts_congr (h : v'.line s = v.line s) : v'.receipts s = v.receipts s := by
  unfold receipts
  rw [h]

theorem waiting_set {p : Party K T} (hout : p.out = (v.party s).out ++ l) :
    (v.set s p).waiting s.other = v.waiting s.other ++ l := by
  unfold waiting
  rw [Side.other_other, set_party_self, hout, set_relay, List.append_assoc]

theorem line_set {p : Party K T} (hout : p.out = (v.party s).out ++ l) :
    (v.set s p).line s.other = v.line s.other ++ l := by
  unfold line
  rw [waiting_set hout, set_incoming, List.append_assoc]

theorem waiting_set_self (p : Party K T) : (v.set s p).waiting s = v.waiting s := by
  unfold waiting
  rw [set_party_other, set_relay]

theorem line_set_self (p : Party K T) : (v.set s p).line s = v.line s :=
  line_congr rfl (waiting_set_self p)

theorem waiting_set_same {p : Party K T} (hout : p.out = (v.party s).out) (t : Side) :
    (v.set s p).waiting t = v.waiting t := by
  rcases Side.eq_or_eq_other s t with rfl | rfl
  · exact waiting_set_self p
  · rw [waiting_set (hout.trans (List.append_nil _).symm), List.append_nil]

theorem waiting_transmit (hv : v.Addressed) (s t : Side) :
    (v.transmit s).waiting t = v.waiting t := by
  rcases v.transmit_cases s with heq | ⟨x, rest, hout, heq⟩
  · rw [heq]
  · have hdest : x.dest = s.other := hv.out s x (hout ▸ List.mem_cons_self)
    rw [heq]
    unfold waiting
    dsimp only
    rw [List.filter_append]
    rcases Side.eq_or_eq_other s t with rfl | rfl
    · have hnot : isTo t x = false := by
        rw [isTo, hdest]
        exact decide_eq_false (Side.other_ne t)
      rw [set_party_other, List.filter_cons_of_neg (by rw [hnot]; decide), List.filter_nil,
        List.append_nil]
    · have hto : isTo s.other x = true := by
        rw [isTo, hdest]
        exact decide_eq_true rfl
      rw [Side.other_other, set_party_self, hout, List.filter_cons_of_pos hto, List.filter_nil,
        List.append_assoc, List.singleton_append]

theorem incoming_transmit (v : Net K T) (s : Side) : (v.transmit s).incoming = v.incoming := by
  rcases v.transmit_cases s with heq | ⟨x, rest, -, heq⟩
  · rw [heq]
  · rw [heq]
    rfl

theorem line_transmit (hv : v.Addressed) (s t : Side) : (v.transmit s).line t = v.line t :=
  line_congr (congrFun (v.incoming_transmit s) t) (waiting_transmit hv s t)

theorem line_take (hm : v.incoming s = m :: l) : v.line s = m :: (v.take s).line s := by
  have hincoming : (v.take s).incoming s = l := by
    unfold take
    rw [hm, List.tail_cons]
    exact Function.update_self ..
  unfold line
  rw [hincoming, hm]
  rfl

theorem line_take_ne (h : t ≠ s) : (v.take s).line t = v.line t :=
  line_congr (Function.update_of_ne h ..) rfl

section Poll

variable [DecidableEq K] {ep : Epoch K}

theorem waiting_poll_sublist (v : Net K T) (s t : Side) (ep : Epoch K) :
    ((v.poll s ep).waiting t).Sublist (v.waiting t) := by
  rcases v.poll_cases s ep with heq | ⟨x, l₁, l₂, -, hrelay, -, -, -, heq⟩
  · rw [heq]
  · rw [heq]
    unfold waiting
    dsimp only
    rw [hrelay]
    refine List.Sublist.append_right (List.Sublist.filter _ ?_) _
    exact List.Sublist.append_left (List.sublist_cons_self _ _) _

theorem line_poll_ne (h : t ≠ s) : (v.poll s ep).line t = v.line t := by
  rcases v.poll_cases s ep with heq | ⟨x, l₁, l₂, -, hrelay, hdest, -, -, heq⟩
  · rw [heq]
  · have hnot : isTo t x = false := by
      rw [isTo, hdest]
      exact decide_eq_false h.symm
    rw [heq]
    refine line_congr (Function.update_of_ne h ..) ?_
    unfold waiting
    dsimp only
    rw [hrelay, List.filter_append, List.filter_append,
      List.filter_cons_of_neg (by rw [hnot]; decide)]

/-- The packet that is fetched overtakes those for the party that stand before it. -/
theorem line_poll {l₁ l₂ : List (Packet K T)} (hrelay : v.relay = l₁ ++ x :: l₂)
    (hdest : x.dest = s)
    (heq : v.poll s ep = { v with
      relay := l₁ ++ l₂
      incoming := Function.update v.incoming s (v.incoming s ++ [x]) }) :
    v.line s = v.incoming s ++ l₁.filter (isTo s) ++ x :: (l₂.filter (isTo s) ++ (v.party s.other).out) ∧
      (v.poll s ep).line s =
        v.incoming s ++ x :: (l₁.filter (isTo s) ++ (l₂.filter (isTo s) ++ (v.party s.other).out)) := by
  have hto : isTo s x = true := by
    rw [isTo, hdest]
    exact decide_eq_true rfl
  constructor
  · unfold line waiting
    rw [hrelay, List.filter_append, List.filter_cons_of_pos hto]
    simp only [List.append_assoc, List.cons_append]
  · rw [heq]
    unfold line waiting
    dsimp only
    rw [Function.update_self, List.filter_append]
    simp only [List.append_assoc, List.cons_append, List.nil_append]

theorem line_poll_perm (v : Net K T) (s t : Side) (ep : Epoch K) :
    ((v.poll s ep).line t).Perm (v.line t) := by
  rcases Side.eq_or_eq_other s t with rfl | rfl
  · rcases v.poll_cases t ep with heq | ⟨x, l₁, l₂, -, hrelay, hdest, -, -, heq⟩
    · rw [heq]
    · obtain ⟨hline, hline'⟩ := line_poll hrelay hdest heq
      rw [hline, hline', List.append_assoc]
      exact List.Perm.append_left _ List.perm_middle.symm
  · rw [line_poll_ne (Side.other_ne s)]

theorem receipts_poll (v : Net K T) (s t : Side) (ep : Epoch K) :
    (v.poll s ep).receipts t = v.receipts t :=
  (line_poll_perm v s t ep).countP_eq _

/-- The texts stay in order unless the packet that is fetched confirms its epoch and
overtakes another. -/
theorem texts_poll_of {l₁ l₂ : List (Packet K T)} (hrelay : v.relay = l₁ ++ x :: l₂)
    (hdest : x.dest = s)
    (heq : v.poll s ep = { v with
      relay := l₁ ++ l₂
      incoming := Function.update v.incoming s (v.incoming s ++ [x]) })
    (h : x.body.confirms = true → ∀ q ∈ l₁, q.dest ≠ s) : (v.poll s ep).texts s = v.texts s := by
  obtain ⟨hline, hline'⟩ := line_poll hrelay hdest heq
  unfold texts
  rw [hline, hline']
  cases hconfirms : x.body.confirms with
  | false =>
      have hnone : x.body.text? = none := Body.text?_of_not_confirms hconfirms
      simp only [List.filterMap_append, List.filterMap_cons, hnone, List.append_assoc]
  | true =>
      have hnil : l₁.filter (isTo s) = [] := by
        rw [List.filter_eq_nil_iff]
        intro q hq hto
        exact h hconfirms q hq (decide_eq_true_eq.mp hto)
      rw [hnil]
      simp only [List.append_nil, List.nil_append]

end Poll

/-! ## Order -/

/-- In what waits for a party, only packets of the sender's current epoch come after one
of them. -/
def Sorted (v : Net K T) (s : Side) : Prop :=
  (v.waiting s).Pairwise fun p q =>
    p.epoch = (v.party s.other).cur → q.epoch = (v.party s.other).cur

theorem Sorted.mono (h : v.Sorted s) (hcur : (v'.party s.other).cur = (v.party s.other).cur)
    (hwaiting : (v'.waiting s).Sublist (v.waiting s)) : v'.Sorted s := by
  unfold Sorted
  rw [hcur]
  exact h.sublist hwaiting

theorem Sorted.append (h : v.Sorted s) (hcur : (v'.party s.other).cur = (v.party s.other).cur)
    (hx : x.epoch = (v.party s.other).cur) (hwaiting : v'.waiting s = v.waiting s ++ [x]) :
    v'.Sorted s := by
  unfold Sorted
  rw [hcur, hwaiting, List.pairwise_append]
  refine ⟨h, List.pairwise_singleton _ _, ?_⟩
  intro p _ q hq _
  rw [List.mem_singleton.mp hq, hx]

/-- When all that waits is of one epoch, the sender may move on. -/
theorem Sorted.of_one_epoch {σ : Epoch K} (h : ∀ p ∈ v.waiting s, p.epoch = σ) : v.Sorted s := by
  refine List.pairwise_of_forall_mem_list ?_
  intro p hp q hq hep
  rw [h q hq, ← h p hp, hep]

theorem mem_all_of_waiting (h : x ∈ v.waiting s) : x ∈ v.all := by
  rcases List.mem_append.mp h with hx | hx
  · exact (v.mem_all s).mpr (.inr (.inr (.inl (List.mem_of_mem_filter hx))))
  · exact (v.mem_all s).mpr (.inr (.inl hx))

theorem dest_of_waiting (hv : v.Addressed) (h : x ∈ v.waiting s) : x.dest = s := by
  rcases List.mem_append.mp h with hx | hx
  · exact decide_eq_true_eq.mp (List.mem_filter.mp hx).2
  · exact (hv.out s.other x hx).trans (Side.other_other s)

end Net

namespace Handover

variable [DecidableEq K] {v : Net K T} {i s : Side} {ep : Epoch K}

/-- **Texts do not overtake**: in a handover a poll keeps the texts of the line in order,
if a party does not fetch a packet that confirms its epoch while there are packets of the
old one at the relay. -/
theorem texts_poll (h : Handover v i) (hsorted : v.Sorted s) (hreads : (v.party s).Reads ep)
    (hdrained : ∀ x, v.relay.find? (Net.isFor s ep) = some x → x.body.confirms = true →
      (v.party s).cur = ep → ∀ σ, (v.party s).old = some σ → σ ≠ ep →
        ∀ q ∈ v.relay, q.dest = s → q.epoch ≠ σ) (t : Side) :
    (v.poll s ep).texts t = v.texts t := by
  rcases Side.eq_or_eq_other s t with rfl | rfl
  · rcases v.poll_cases t ep with heq | ⟨x, l₁, l₂, hfind, hrelay, hdest, hep, hl₁, heq⟩
    · rw [heq]
    · refine Net.texts_poll_of hrelay hdest heq ?_
      intro hconfirms q hq hqd
      have hqe : q.epoch ≠ ep := hl₁ q hq hqd
      have hq' : q ∈ v.relay := hrelay ▸ List.mem_append_left _ hq
      have hmem : q ∈ v.all := (v.mem_all t).mpr (.inr (.inr (.inl hq')))
      -- the packet before the one that is fetched is not of the sender's epoch
      have hbefore : q.epoch ≠ (v.party t.other).cur := by
        intro hcur
        have hpair : v.relay.Pairwise fun p q => p.dest = t → q.dest = t →
            p.epoch = (v.party t.other).cur → q.epoch = (v.party t.other).cur := by
          have hrelayed := (List.pairwise_append.mp hsorted).1
          rw [List.pairwise_filter] at hrelayed
          exact hrelayed.imp fun hpq hp hq =>
            hpq (decide_eq_true hp) (decide_eq_true hq)
        rw [hrelay, List.pairwise_append] at hpair
        have hx := hpair.2.2 q hq x List.mem_cons_self hqd hdest hcur
        exact hqe (hcur.trans (hx.symm.trans hep))
      rcases Side.eq_or_eq_other i t with rfl | rfl
      · have hcur : (v.party t).cur = ep := by
          refine hreads.resolve_right ?_
          rw [h.initiator]
          rintro ⟨⟩
        rcases h.phase with heven | ⟨e, e', huneven⟩
        · exact hqe ((heven.toInitiator q hmem hqd).trans hcur)
        · rcases huneven.toInitiator q hmem hqd with hqe' | hqe'
          · exact hqe (hqe'.trans hcur)
          · exact hbefore hqe'
      · rw [Side.other_other] at hbefore
        rcases h.phase with heven | ⟨e, e', huneven⟩
        · rcases heven.toOther q hmem hqd with hcur | hold
          · exact hbefore (hcur.symm.trans heven.cur)
          · have hxcur : (v.party i.other).cur = ep := by
              refine hreads.resolve_right ?_
              intro hep'
              exact hqe (Option.some.inj (hold.symm.trans hep'))
            exact hdrained x hfind hconfirms hxcur _ hold hqe q hq' hqd rfl
        · exact hbefore (huneven.toOther q hmem hqd)
  · exact Net.texts_congr (Net.line_poll_ne (Side.other_ne s))

end Handover

namespace Net

/-! ## The load -/

/-- The moves that the packets of a list can make, when they have made `k` of the three to
their party. -/
def weigh (k : ℕ) (l : List (Packet K T)) : ℕ := (l.map fun p => 3 * p.body.rank - k).sum

def load (v : Net K T) : ℕ :=
  weigh 0 (v.party .left).out + weigh 0 (v.party .right).out + weigh 1 v.relay +
    weigh 2 (v.incoming .left) + weigh 2 (v.incoming .right)

@[simp] theorem weigh_nil (k : ℕ) : weigh k ([] : List (Packet K T)) = 0 := rfl

@[simp] theorem weigh_cons (k : ℕ) (p : Packet K T) (l : List (Packet K T)) :
    weigh k (p :: l) = 3 * p.body.rank - k + weigh k l := rfl

@[simp] theorem weigh_append (k : ℕ) (l l' : List (Packet K T)) :
    weigh k (l ++ l') = weigh k l + weigh k l' := by
  unfold weigh
  rw [List.map_append, List.sum_append]

theorem weigh_le (k : ℕ) (l : List (Packet K T)) : weigh k l ≤ 6 * l.length := by
  induction l with
  | nil => exact Nat.le_refl 0
  | cons p l ih =>
      have hrank := p.body.rank_le_two
      rw [weigh_cons, List.length_cons]
      omega

theorem length_le_weigh {k : ℕ} (hk : k ≤ 2) (l : List (Packet K T)) : l.length ≤ weigh k l := by
  induction l with
  | nil => exact Nat.le_refl 0
  | cons p l ih =>
      have hrank := p.body.one_le_rank
      rw [weigh_cons, List.length_cons]
      omega

theorem load_eq (v : Net K T) (s : Side) :
    v.load = weigh 0 (v.party s).out + weigh 2 (v.incoming s) +
      (weigh 0 (v.party s.other).out + weigh 1 v.relay + weigh 2 (v.incoming s.other)) := by
  cases s with
  | left =>
      simp only [load, Side.other]
      omega
  | right =>
      simp only [load, Side.other]
      omega

variable {v : Net K T} {s : Side} {x m : Packet K T} {l : List (Packet K T)}

theorem load_set {p : Party K T} (hout : p.out = (v.party s).out ++ l) :
    (v.set s p).load = v.load + weigh 0 l := by
  rw [load_eq _ s, load_eq v s, set_party_self, set_party_other, hout, weigh_append]
  simp only [set_incoming, set_relay]
  omega

theorem load_transmit (hout : (v.party s).out = x :: l) : (v.transmit s).load + 1 = v.load := by
  have heq : v.transmit s = { v.set s { v.party s with out := l } with relay := v.relay ++ [x] } := by
    unfold transmit
    rw [hout]
  have hrank := x.body.one_le_rank
  rw [heq, load_eq _ s, load_eq v s, hout]
  dsimp only
  rw [set_party_self, set_party_other, weigh_append, weigh_cons, weigh_cons, weigh_nil, set_incoming]
  dsimp only
  omega

theorem load_poll [DecidableEq K] {ep : Epoch K} (hfind : v.relay.find? (isFor s ep) = some x) :
    (v.poll s ep).load + 1 = v.load := by
  obtain ⟨l₁, l₂, hrelay, herase, -⟩ := find?_split hfind
  have heq : v.poll s ep = { v with
      relay := l₁ ++ l₂
      incoming := Function.update v.incoming s (v.incoming s ++ [x]) } := by
    unfold poll
    rw [hfind, ← herase]
  have hrank := x.body.one_le_rank
  rw [heq, load_eq _ s, load_eq v s, hrelay]
  dsimp only
  rw [Function.update_self, Function.update_of_ne (Side.other_ne s), weigh_append, weigh_append,
    weigh_append, weigh_cons, weigh_cons, weigh_nil]
  omega

theorem load_take (hm : v.incoming s = m :: l) :
    (v.take s).load + (3 * m.body.rank - 2) = v.load := by
  have heq : v.take s = { v with incoming := Function.update v.incoming s l } := by
    unfold take
    rw [hm, List.tail_cons]
  rw [heq, load_eq _ s, load_eq v s, hm, weigh_cons]
  dsimp only
  rw [Function.update_self, Function.update_of_ne (Side.other_ne s)]
  omega

/-- Nothing is in an outbox, at the relay or fetched. -/
structure Drained (v : Net K T) : Prop where
  out : ∀ s, (v.party s).out = []
  relay : v.relay = []
  incoming : ∀ s, v.incoming s = []

theorem Drained.load (h : v.Drained) : v.load = 0 := by
  unfold Net.load
  rw [h.out, h.out, h.relay, h.incoming, h.incoming]
  rfl

theorem drained_of_load (h : v.load = 0) : v.Drained := by
  have hnil : ∀ {k : ℕ} {l : List (Packet K T)}, k ≤ 2 → weigh k l = 0 → l = [] := by
    intro k l hk hzero
    exact List.length_eq_zero_iff.mp (Nat.le_zero.mp (hzero ▸ length_le_weigh hk l))
  refine ⟨?_, ?_, ?_⟩
  · intro s
    rw [load_eq v s] at h
    exact hnil (Nat.zero_le 2) (by omega)
  · rw [load_eq v .left] at h
    exact hnil (k := 1) (by decide) (by omega)
  · intro s
    rw [load_eq v s] at h
    exact hnil (Nat.le_refl 2) (by omega)

theorem Drained.all (h : v.Drained) : v.all = 0 := by
  unfold Net.all
  rw [h.out, h.out, h.relay, h.incoming, h.incoming]
  rfl

theorem Drained.line (h : v.Drained) (s : Side) : v.line s = [] := by
  unfold Net.line waiting
  rw [h.incoming, h.relay, h.out]
  rfl

end Net

/-- **Nothing gets stuck in a handover**: when the outboxes and what was fetched are empty
and the parties find nothing in the epochs that they read, nothing is left. -/
theorem Handover.drained {v : Net K T} {i : Side} (h : Handover v i)
    (hout : ∀ s, (v.party s).out = []) (hincoming : ∀ s, v.incoming s = [])
    (hrelay : ∀ p ∈ v.relay, ¬ (v.party p.dest).Reads p.epoch) : v.Drained := by
  refine ⟨hout, ?_, hincoming⟩
  rw [List.eq_nil_iff_forall_not_mem]
  have hrelayed : ∀ {p}, p ∈ v.all → p ∈ v.relay := by
    intro p hp
    rcases (v.mem_all .left).mp hp with hp | hp | hp | hp | hp
    · rw [hout] at hp
      cases hp
    · rw [hout] at hp
      cases hp
    · exact hp
    · rw [hincoming] at hp
      cases hp
    · rw [hincoming] at hp
      cases hp
  intro p hp
  rcases h.reads ((v.mem_all .left).mpr (.inr (.inr (.inl hp)))) with hreads | ⟨e, e', -, -, huneven⟩
  · exact hrelay p hp hreads
  · exact hrelay _ (hrelayed huneven.ack) (.inl rfl)

/-! ## What the operations keep -/

/-- A party that waits is waited for: its request or the answer to it is under way. -/
def Pursued (v : Net K T) (i : Side) : Prop :=
  (v.party i).pending ≠ none → ∃ p ∈ v.all, p.body.rotates = true

/-- What waits is in order for both parties. -/
def InOrder (v : Net K T) : Prop := ∀ s, v.Sorted s

section Keep

variable {v v' : Net K T} {i s : Side} {m x : Packet K T} {l : List (Packet K T)}

theorem Pursued.mono (h : Pursued v i) (hpending : (v'.party i).pending = (v.party i).pending)
    (hall : ∀ p ∈ v.all, p.body.rotates = true → p ∈ v'.all) : Pursued v' i := by
  intro hne
  rw [hpending] at hne
  obtain ⟨p, hp, hrotates⟩ := h hne
  exact ⟨p, hall p hp hrotates, hrotates⟩

theorem Pursued.of_rotates (hx : x ∈ v.all) (h : x.body.rotates = true) : Pursued v i :=
  fun _ => ⟨x, hx, h⟩

theorem Pursued.read (h : Pursued v i) (hm : v.incoming s = m :: l) (hrotates : m.body.rotates = false)
    {p : Party K T} {l' : List (Packet K T)} (hpending : p.pending = (v.party s).pending)
    (hout : p.out = (v.party s).out ++ l') : Pursued ((v.take s).set s p) i := by
  refine h.mono ?_ ?_
  · by_cases hs : i = s
    · subst hs
      rw [Net.set_party_self, hpending]
    · rw [Net.set_party_ne _ hs]
      rfl
  · intro q hq hq'
    rw [v.all_take hm, Multiset.mem_cons] at hq
    have hne : q ≠ m := by
      rintro rfl
      rw [hrotates] at hq'
      cases hq'
    have hmem := hq.resolve_left hne
    rw [Net.all_eq _ s, Multiset.mem_add] at hmem
    rw [Net.all_set, hout, Multiset.mem_add]
    exact hmem.imp_left fun hq => List.mem_append_left _ hq

theorem InOrder.transmit (h : InOrder v) (hv : v.Addressed) (s : Side) :
    InOrder (v.transmit s) := by
  intro t
  refine (h t).mono (v.transmit_party s t.other).1 ?_
  rw [Net.waiting_transmit hv]

theorem InOrder.poll [DecidableEq K] (h : InOrder v) (s : Side) (ep : Epoch K) :
    InOrder (v.poll s ep) := by
  intro t
  refine (h t).mono ?_ (v.waiting_poll_sublist s t ep)
  rw [Net.poll_party]

theorem InOrder.take (h : InOrder v) (s : Side) : InOrder (v.take s) :=
  fun t => (h t).mono rfl (List.Sublist.refl _)

theorem InOrder.set_same (h : InOrder v) {p : Party K T} (hcur : p.cur = (v.party s).cur)
    (hout : p.out = (v.party s).out) : InOrder (v.set s p) := by
  intro t
  refine (h t).mono ?_ ?_
  · rcases Side.eq_or_eq_other s t with rfl | rfl
    · rw [Net.set_party_other]
    · rw [Side.other_other, Net.set_party_self, hcur]
  · rw [Net.waiting_set_same hout]

theorem InOrder.append (h : InOrder v) {p : Party K T} (hcur : p.cur = (v.party s).cur)
    (hx : x.epoch = (v.party s).cur) (hout : p.out = (v.party s).out ++ [x]) :
    InOrder (v.set s p) := by
  intro t
  rcases Side.eq_or_eq_other s t with rfl | rfl
  · refine (h t).mono ?_ ?_
    · rw [Net.set_party_other]
    · rw [Net.waiting_set_self]
  · refine (h s.other).append ?_ ?_ (Net.waiting_set hout)
    · rw [Side.other_other, Net.set_party_self, hcur]
    · rw [Side.other_other, hx]

end Keep

namespace Handover

variable {v : Net K T} {i s : Side} {l : List (Packet K T)} {ep : Epoch K} {e e' : K}

/-- A request that is under way goes to the party that answers, in the even phase. -/
theorem even_of_request (h : Handover v i) (hmem : ⟨s, ep, .request e⟩ ∈ v.all) :
    s = i.other ∧ Even v i := by
  obtain rfl : s = i.other := h.request_dest hmem
  refine ⟨rfl, ?_⟩
  rcases h.phase with heven | ⟨e₁, e₁', huneven⟩
  · exact heven
  · exact absurd ⟨rfl, rfl⟩ ((h.agreement.ahead_of_ack huneven.ack).1.answered _ hmem)

/-- The party that answers moves on when all it has sent is of its old epoch. -/
theorem inOrder_answer (h : Handover v i) (hv : v.Addressed) (horder : InOrder v)
    (hm : v.incoming s = ⟨s, ep, .request e⟩ :: l) : InOrder ((v.take s).answer s e e') := by
  have hmem : (⟨s, ep, .request e⟩ : Packet K T) ∈ v.all :=
    (v.mem_all s).mpr (.inr (.inr (.inr (.inl (hm ▸ List.mem_cons_self)))))
  obtain ⟨rfl, heven⟩ := h.even_of_request hmem
  intro t
  rcases Side.eq_or_eq_other i.other t with rfl | rfl
  · refine (horder i.other).mono ?_ ?_
    · exact congrArg Party.cur (Net.set_party_other ..)
    · exact (Net.waiting_set_self (v := v.take i.other) _) ▸ List.Sublist.refl _
  · refine Net.Sorted.of_one_epoch (σ := (v.party i).cur) ?_
    intro p hp
    have hwaiting : ((v.take i.other).answer i.other e e').waiting i.other.other =
        v.waiting i.other.other ++ [(v.party i.other).packet i.other (.ack e e')] :=
      Net.waiting_set (v := v.take i.other) rfl
    rw [hwaiting, List.mem_append, List.mem_singleton, Side.other_other] at hp
    rcases hp with hp | rfl
    · exact heven.toInitiator p (Net.mem_all_of_waiting hp) (Net.dest_of_waiting hv hp)
    · exact heven.cur

theorem inOrder_complete (h : Handover v i) (hv : v.Addressed) (horder : InOrder v)
    (hm : v.incoming s = ⟨s, ep, .ack e e'⟩ :: l) : InOrder ((v.take s).complete s e e') := by
  have hmem : (⟨s, ep, .ack e e'⟩ : Packet K T) ∈ v.all :=
    (v.mem_all s).mpr (.inr (.inr (.inr (.inl (hm ▸ List.mem_cons_self)))))
  obtain rfl : s = i := h.ack_dest hmem
  obtain ⟨e₁, e₁', huneven⟩ : ∃ e e', Uneven v s e e' := by
    rcases h.phase with heven | huneven
    · exact absurd rfl (heven.noAck _ hmem)
    · exact huneven
  have hsame : ∀ t, ((v.take s).complete s e e').waiting t = v.waiting t := fun t =>
    Net.waiting_set_same (v := v.take s) (s := s) (p := (v.party s).complete s e e') rfl t
  intro t
  rcases Side.eq_or_eq_other s t with rfl | rfl
  · refine (horder t).mono ?_ ?_
    · exact congrArg Party.cur (Net.set_party_other ..)
    · rw [hsame]
  · refine Net.Sorted.of_one_epoch (σ := (v.party s).cur) ?_
    intro p hp
    rw [hsame] at hp
    exact huneven.toOther p (Net.mem_all_of_waiting hp) (Net.dest_of_waiting hv hp)

end Handover

end BlankChat.Lib.Rotation
