import Mathlib.Algebra.BigOperators.Group.List.Basic
import Mathlib.Algebra.Order.Ring.Int
import Mathlib.Data.List.Nodup
import Mathlib.Logic.Function.Basic
import PtaasBench.Js.Text
import PtaasBench.Lib.Machine
import PtaasBench.Shopfront.Windows

/-!
# PtaasBench.Shopfront.Redeem — redeeming a gift card, and the double-spend counter

Any number of requests, statement by statement, with whatever else runs beside them.  Each reads the card, writes its
credit, marks the card, and then adds up the credits of the card.  Two that read the card before either marks it both
write one.

The one that adds up last sees both, unless another has reported the card within the window.  That is the invariant
(`Watched.noticed`): as long as a card is overspent, some request has raised the counter or has yet to look.
-/

namespace PtaasBench.Shopfront.Redeem

open Lib List
open Js (toString_int_injective)
open Shopfront.Windows

/-! ## The tables -/

structure Card where
  id : ℤ
  code : String
  faceValueCents : ℤ
  state : String
  customerId : Option ℤ

/-- `gift_cards`, with its primary key and its unique column. -/
structure GiftCards where
  rows : List Card
  ids : (rows.map Card.id).Nodup
  codes : (rows.map Card.code).Nodup

/-- `SELECT … WHERE code = $1` -/
def GiftCards.find? (cards : GiftCards) (code : String) : Option Card := cards.rows.find? fun card => card.code = code

def Card.redeemed (id customerId : ℤ) (card : Card) : Card :=
  if card.id = id then { card with state := "redeemed", customerId := some customerId } else card

/-- `UPDATE gift_cards SET state = 'redeemed', customer_id = $2 WHERE id = $1` -/
def GiftCards.redeem (cards : GiftCards) (id customerId : ℤ) : GiftCards where
  rows := cards.rows.map (Card.redeemed id customerId)
  ids := by
    have hids : (cards.rows.map (Card.redeemed id customerId)).map Card.id = cards.rows.map Card.id := by
      rw [map_map]
      exact map_congr_left fun card _ => by simp only [Function.comp_apply, Card.redeemed]; split_ifs <;> rfl
    rw [hids]
    exact cards.ids
  codes := by
    have hcodes : (cards.rows.map (Card.redeemed id customerId)).map Card.code = cards.rows.map Card.code := by
      rw [map_map]
      exact map_congr_left fun card _ => by simp only [Function.comp_apply, Card.redeemed]; split_ifs <;> rfl
    rw [hcodes]
    exact cards.codes

/-- A row of `wallet_credits`. -/
structure Credit where
  id : ℕ
  customerId : ℤ
  giftCardId : Option ℤ
  amountCents : ℤ

/-! ## The code -/

structure Request where
  code : String
  customerId : ℤ

/-- Where a request stands: what it has done last, and what it remembers. -/
inductive Phase where
  | start
  | refused
  | found (card : Card)
  | audited (card : Card)
  | numbered (card : Card) (creditId : ℕ)
  | credited (card : Card)
  | marked (card : Card)
  | summed (card : Card) (credited : ℤ) (entries : ℕ)
  | checked (card : Card) (raised : Bool)
  | answered (card : Card) (raised : Bool) (creditedCents walletBalanceCents : ℤ)

def walletKey (id : ℤ) : String := "wallet-card:" ++ toString id

def windowMs : ℤ := 15000

structure State (ι : Type*) where
  now : ℤ
  cards : GiftCards
  credits : List Credit
  lastId : ℕ
  seen : Seen
  /-- the cards the counter was raised for, and when -/
  reports : List (ℤ × ℤ)
  phase : ι → Phase

variable {ι : Type*} [DecidableEq ι]

def State.at (s : State ι) (i : ι) (phase : Phase) : State ι := { s with phase := Function.update s.phase i phase }

theorem State.at_phase (s : State ι) (i j : ι) (phase : Phase) :
    (s.at i phase).phase j = if j = i then phase else s.phase j := Function.update_apply ..

/-- The credits against a card. -/
def State.against (s : State ι) (id : ℤ) : List Credit := s.credits.filter fun credit => credit.giftCardId = some id

/-- `sum(amount_cents)` over them. -/
def State.ledger (s : State ι) (id : ℤ) : ℤ := ((s.against id).map Credit.amountCents).sum

def State.balance (s : State ι) (customerId : ℤ) : ℤ :=
  ((s.credits.filter fun credit => credit.customerId = customerId).map Credit.amountCents).sum

/-- The check of the ledger that was read, up to the next statement. -/
def check (s : State ι) (i : ι) (card : Card) (credited : ℤ) : State ι :=
  if card.faceValueCents < credited then
    let first := firstInWindow s.seen (walletKey card.id) windowMs s.now
    if first.1 then { s.at i (.checked card true) with seen := first.2, reports := s.reports ++ [(card.id, s.now)] }
    else { s.at i (.checked card false) with seen := first.2 }
  else s.at i (.checked card false)

variable (requests : ι → Request)

/-- The next statement of a request, with the code in front of it. -/
def turn (s : State ι) (i : ι) : State ι :=
  match s.phase i with
  | .start =>
    match s.cards.find? (requests i).code with
    | none => s.at i .refused
    | some card => s.at i (.found card)
  -- the state is that of the first statement, and the mark below asks for none
  | .found card => if card.state ≠ "issued" then s.at i .refused else s.at i (.audited card)
  | .audited card => { s.at i (.numbered card (s.lastId + 1)) with lastId := s.lastId + 1 }
  | .numbered card creditId =>
    { s.at i (.credited card) with
      credits := s.credits ++ [⟨creditId, (requests i).customerId, some card.id, card.faceValueCents⟩] }
  | .credited card =>
    { s.at i (.marked card) with cards := s.cards.redeem card.id (requests i).customerId }
  | .marked card => s.at i (.summed card (s.ledger card.id) (s.against card.id).length)
  | .summed card credited _ => check s i card credited
  | .checked card raised =>
    s.at i (.answered card raised card.faceValueCents (s.balance (requests i).customerId))
  | .refused => s
  | .answered _ _ _ _ => s

inductive Event (ι : Type*) where
  | turn (i : ι)
  | tick (ms : ℕ)
  /-- another route asks for its own key -/
  | elsewhere (key : String) (windowMs : ℤ) (other : ∀ id, key ≠ walletKey id)

def step (s : State ι) : Event ι → State ι
  | .turn i => turn requests s i
  | .tick ms => { s with now := s.now + ms }
  | .elsewhere key windowMs _ => { s with seen := (firstInWindow s.seen key windowMs s.now).2 }

/-! ## What a request remembers -/

def Phase.card? : Phase → Option Card
  | .start => none
  | .refused => none
  | .found card => some card
  | .audited card => some card
  | .numbered card _ => some card
  | .credited card => some card
  | .marked card => some card
  | .summed card _ _ => some card
  | .checked card _ => some card
  | .answered card _ _ _ => some card

def Phase.finished : Phase → Bool
  | .refused => true
  | .answered _ _ _ _ => true
  | _ => false

/-- Its credit is written. -/
def Phase.written : Phase → Bool
  | .credited _ => true
  | .marked _ => true
  | .summed _ _ _ => true
  | .checked _ _ => true
  | .answered _ _ _ _ => true
  | _ => false

/-- It has raised the counter. -/
def Phase.raised : Phase → Bool
  | .checked _ raised => raised
  | .answered _ raised _ _ => raised
  | _ => false

/-- It has seen too much in the ledger. -/
def Phase.alarmed : Phase → Bool
  | .summed card total _ => card.faceValueCents < total
  | phase => phase.raised

/-- It has yet to read the ledger, or to act on what it saw there. -/
def Phase.pending : Phase → Bool
  | .credited _ => true
  | .marked _ => true
  | .summed card total _ => card.faceValueCents < total
  | _ => false

/-! ## The table of cards -/

theorem walletKey_injective : Function.Injective walletKey := fun _ _ h =>
  toString_int_injective ((String.append_right_inj _).mp h)

/-- The row that a card was read from is still there, whoever holds it now. -/
def Listed (cards : GiftCards) (id : ℤ) (code : String) (face : ℤ) : Prop :=
  ∃ row ∈ cards.rows, row.id = id ∧ row.code = code ∧ row.faceValueCents = face

theorem Listed.redeem {cards : GiftCards} {id face : ℤ} {code : String} (h : Listed cards id code face)
    (redeemed customerId : ℤ) : Listed (cards.redeem redeemed customerId) id code face := by
  obtain ⟨row, hrow, hid, hcode, hface⟩ := h
  refine ⟨row.redeemed redeemed customerId, mem_map_of_mem hrow, ?_⟩
  unfold Card.redeemed
  split_ifs
  · exact ⟨hid, hcode, hface⟩
  · exact ⟨hid, hcode, hface⟩

theorem listed_of_find {cards : GiftCards} {code : String} {card : Card} (h : cards.find? code = some card) :
    Listed cards card.id code card.faceValueCents :=
  ⟨card, mem_of_find?_eq_some h, rfl, by simpa using List.find?_some h, rfl⟩

theorem Listed.same_code {cards : GiftCards} {id id' face face' : ℤ} {code : String} (h : Listed cards id code face)
    (h' : Listed cards id' code face') : id' = id ∧ face' = face := by
  obtain ⟨row, hrow, rfl, hcode, rfl⟩ := h
  obtain ⟨row', hrow', rfl, hcode', rfl⟩ := h'
  rw [inj_on_of_nodup_map cards.codes hrow' hrow (hcode'.trans hcode.symm)]
  exact ⟨rfl, rfl⟩

theorem Listed.other_code {cards : GiftCards} {id id' face face' : ℤ} {code code' : String}
    (h : Listed cards id code face) (h' : Listed cards id' code' face') (hne : code' ≠ code) : id' ≠ id := by
  obtain ⟨row, hrow, rfl, rfl, -⟩ := h
  obtain ⟨row', hrow', rfl, rfl, -⟩ := h'
  intro hid
  rw [inj_on_of_nodup_map cards.ids hrow' hrow hid] at hne
  exact hne rfl

/-! ## What is true of every state -/

variable {requests}

/-- Every card in hand was read from the table, and every wallet key is the mark of a report. -/
structure Sound (requests : ι → Request) (s : State ι) : Prop where
  read : ∀ i, ∀ card ∈ (s.phase i).card?, Listed s.cards card.id (requests i).code card.faceValueCents
  logged : ∀ id, ∀ p ∈ s.seen.get? (walletKey id), (id, p) ∈ s.reports

/-- A request that goes on with the card it has. -/
theorem Sound.at {s : State ι} (h : Sound requests s) (i : ι) {phase : Phase}
    (hcard : ∀ card ∈ phase.card?, Listed s.cards card.id (requests i).code card.faceValueCents) :
    Sound requests (s.at i phase) where
  read := by
    intro j card hmem
    rw [State.at_phase] at hmem
    split_ifs at hmem with hj
    · rw [hj]
      exact hcard card hmem
    · exact h.read j card hmem
  logged := h.logged

theorem Sound.check {s : State ι} (h : Sound requests s) {i : ι} {card : Card} (credited : ℤ)
    (hcard : Listed s.cards card.id (requests i).code card.faceValueCents) :
    Sound requests (check s i card credited) := by
  have hphase : ∀ raised, ∀ c ∈ (Phase.checked card raised).card?,
      Listed s.cards c.id (requests i).code c.faceValueCents := by
    rintro raised c ⟨⟩
    exact hcard
  unfold Redeem.check
  dsimp only
  split_ifs with hover hfirst
  · refine ⟨(h.at i (hphase true)).read, fun id p hp => ?_⟩
    rcases @firstInWindow_cases s.seen (walletKey card.id) windowMs s.now with
      ⟨_, _, _, heq⟩ | ⟨-, hnew⟩
    · rw [heq] at hfirst
      exact Bool.noConfusion hfirst
    · rcases hnew _ p hp with ⟨hkey, rfl⟩ | hold
      · rw [walletKey_injective hkey]
        exact mem_append_right _ (mem_singleton_self _)
      · exact mem_append_left _ (h.logged id p hold)
  · refine ⟨(h.at i (hphase false)).read, fun id p hp => ?_⟩
    rcases @firstInWindow_cases s.seen (walletKey card.id) windowMs s.now with
      ⟨_, _, _, heq⟩ | ⟨htrue, -⟩
    · rw [heq] at hp
      exact h.logged id p hp
    · exact absurd htrue hfirst
  · exact h.at i (hphase false)

theorem Sound.turn {s : State ι} (h : Sound requests s) (i : ι) : Sound requests (turn requests s i) := by
  have hread := h.read i
  unfold Redeem.turn
  cases hphase : s.phase i with
  | start =>
    dsimp only
    cases hfind : s.cards.find? (requests i).code with
    | none => exact h.at i nofun
    | some card =>
      refine h.at i ?_
      rintro _ ⟨⟩
      exact listed_of_find hfind
  | found card =>
    rw [hphase] at hread
    dsimp only
    split_ifs
    · exact h.at i nofun
    · exact h.at i hread
  | audited card =>
    rw [hphase] at hread
    have hat : Sound requests (s.at i (.numbered card (s.lastId + 1))) := h.at i hread
    exact ⟨hat.read, hat.logged⟩
  | numbered card creditId =>
    rw [hphase] at hread
    have hat : Sound requests (s.at i (.credited card)) := h.at i hread
    exact ⟨hat.read, hat.logged⟩
  | credited card =>
    rw [hphase] at hread
    have hat : Sound requests (s.at i (.marked card)) := h.at i hread
    exact ⟨fun j c hc => (hat.read j c hc).redeem _ _, hat.logged⟩
  | marked card =>
    rw [hphase] at hread
    exact h.at i hread
  | summed card credited entries =>
    rw [hphase] at hread
    exact h.check credited (hread card rfl)
  | checked card raised =>
    rw [hphase] at hread
    exact h.at i hread
  | refused => exact h
  | answered card raised creditedCents walletBalanceCents => exact h

theorem Sound.step {s : State ι} (h : Sound requests s) (e : Event ι) : Sound requests (step requests s e) := by
  cases e with
  | turn i => exact h.turn i
  | tick ms => exact ⟨h.read, h.logged⟩
  | elsewhere key windowMs other =>
    refine ⟨h.read, fun id p hp => ?_⟩
    rcases @firstInWindow_cases s.seen key windowMs s.now with
      ⟨_, _, _, heq⟩ | ⟨-, hnew⟩
    · rw [Redeem.step, heq] at hp
      exact h.logged id p hp
    · rcases hnew _ p hp with ⟨hkey, -⟩ | hold
      · exact absurd hkey.symm (other id)
      · exact h.logged id p hold

/-! ## The requests for one card -/

/-- The credits that are written against the card exceed its face value. -/
def Overspent (card : Card) (s : State ι) : Prop :=
  s.against card.id ≠ [] ∧ card.faceValueCents < s.ledger card.id

/-- What holds of the requests for a card from a state on in which none of them has begun. -/
structure Watched (requests : ι → Request) (card : Card) (s₀ s : State ι) : Prop where
  sound : Sound requests s
  listed : Listed s.cards card.id card.code card.faceValueCents
  worth : ∀ credit ∈ s.against card.id, credit.amountCents = card.faceValueCents
  written : ∀ i, (requests i).code = card.code → (s.phase i).written = true → s.against card.id ≠ []
  alarmed : ∀ i, (requests i).code = card.code → (s.phase i).alarmed = true → Overspent card s
  later : s₀.now ≤ s.now
  reported : ∀ at', (card.id, at') ∈ s.reports → (card.id, at') ∈ s₀.reports ∨
    ∃ i, (requests i).code = card.code ∧ (s.phase i).raised = true
  noticed : Overspent card s → (∀ at', (card.id, at') ∈ s₀.reports → windowMs ≤ s₀.now - at') →
    ∃ i, (requests i).code = card.code ∧ ((s.phase i).raised = true ∨ (s.phase i).pending = true)

variable {card : Card} {s₀ s : State ι}

omit [DecidableEq ι] in
/-- A request for the card holds the card. -/
theorem Watched.held (h : Watched requests card s₀ s) {i : ι} (hi : (requests i).code = card.code) {c : Card}
    (hc : (s.phase i).card? = some c) : c.id = card.id ∧ c.faceValueCents = card.faceValueCents :=
  h.listed.same_code (hi ▸ h.sound.read i c hc)

omit [DecidableEq ι] in
/-- Any other request holds another card. -/
theorem Watched.other (h : Watched requests card s₀ s) {i : ι} (hi : (requests i).code ≠ card.code) {c : Card}
    (hc : (s.phase i).card? = some c) : c.id ≠ card.id :=
  h.listed.other_code (h.sound.read i c hc) hi

/-- A request goes on without writing a credit. -/
theorem Watched.at (h : Watched requests card s₀ s) {i : ι} {phase : Phase} {s' : State ι}
    (hsound : Sound requests s') (hlisted : Listed s'.cards card.id card.code card.faceValueCents)
    (hcredits : s'.credits = s.credits) (hnow : s'.now = s.now) (hphase : s'.phase = (s.at i phase).phase)
    (hreports : ∀ at', (card.id, at') ∈ s'.reports →
      (card.id, at') ∈ s.reports ∨ (requests i).code = card.code ∧ phase.raised = true)
    (hwritten : phase.written = true → (s.phase i).written = true)
    (halarmed : (requests i).code = card.code → phase.alarmed = true → Overspent card s)
    (hraised : (s.phase i).raised = true → phase.raised = true)
    (hpending : (requests i).code = card.code →
      (∀ at', (card.id, at') ∈ s₀.reports → windowMs ≤ s₀.now - at') → Overspent card s →
      (s.phase i).pending = true → phase.raised = true ∨ phase.pending = true ∨
        ∃ j, j ≠ i ∧ (requests j).code = card.code ∧ (s.phase j).raised = true) : Watched requests card s₀ s' := by
  have hagainst : s'.against card.id = s.against card.id := by rw [State.against, State.against, hcredits]
  have hover : Overspent card s' ↔ Overspent card s := by
    rw [Overspent, Overspent, State.ledger, State.ledger, hagainst]
  have hat : ∀ j, s'.phase j = if j = i then phase else s.phase j := fun j => by rw [hphase, State.at_phase]
  have hkeep : ∀ j, (s.phase j).raised = true → (s'.phase j).raised = true := by
    intro j hr
    rw [hat]
    split_ifs with hji
    · exact hraised (hji ▸ hr)
    · exact hr
  refine ⟨hsound, hlisted, hagainst ▸ h.worth, ?_, ?_, hnow ▸ h.later, ?_, ?_⟩
  · intro j hj hw
    rw [hagainst]
    rw [hat] at hw
    split_ifs at hw with hji
    · exact h.written i (hji ▸ hj) (hwritten hw)
    · exact h.written j hj hw
  · intro j hj ha
    rw [hover]
    rw [hat] at ha
    split_ifs at ha with hji
    · exact halarmed (hji ▸ hj) ha
    · exact h.alarmed j hj ha
  · intro at' hmem
    rcases hreports at' hmem with hold | ⟨hi, hr⟩
    · exact (h.reported at' hold).imp_right fun ⟨j, hj, hr⟩ => ⟨j, hj, hkeep j hr⟩
    · exact Or.inr ⟨i, hi, by rw [hat, if_pos rfl, hr]⟩
  · -- the request that had yet to look is this one or another, and only this one has moved
    intro hexceeds hquiet
    rw [hover] at hexceeds
    obtain ⟨j, hj, hr | hp⟩ := h.noticed hexceeds hquiet
    · exact ⟨j, hj, Or.inl (hkeep j hr)⟩
    · by_cases hji : j = i
      · subst hji
        rcases hpending hj hquiet hexceeds hp with hr | hp | ⟨k, -, hk, hr⟩
        · exact ⟨j, hj, Or.inl (by rw [hat, if_pos rfl, hr])⟩
        · exact ⟨j, hj, Or.inr (by rw [hat, if_pos rfl, hp])⟩
        · exact ⟨k, hk, Or.inl (hkeep k hr)⟩
      · exact ⟨j, hj, Or.inr (by rw [hat, if_neg hji, hp])⟩

/-! ## The credits -/

/-- Two credits of a card that is worth something are too much. -/
theorem two_exceed_iff {n : ℕ} {face : ℤ} : n ≠ 0 ∧ face < n * face ↔ 0 < face ∧ 2 ≤ n := by
  constructor
  · rintro ⟨hn, hlt⟩
    obtain ⟨m, rfl⟩ := Nat.exists_eq_add_one_of_ne_zero hn
    have hpos : 0 < (m : ℤ) * face := by
      rw [Nat.cast_add, Nat.cast_one, add_mul, one_mul] at hlt
      omega
    have hm : (0 : ℤ) ≤ m := Int.natCast_nonneg m
    rcases mul_pos_iff.mp hpos with ⟨hm, hface⟩ | ⟨hneg, -⟩
    · exact ⟨hface, by omega⟩
    · omega
  · rintro ⟨hface, hn⟩
    refine ⟨by omega, ?_⟩
    have hn' : (2 : ℤ) ≤ n := by exact_mod_cast hn
    calc face < 2 * face := by omega
      _ ≤ n * face := mul_le_mul_of_nonneg_right hn' hface.le

omit [DecidableEq ι] in
theorem overspent_iff (hworth : ∀ credit ∈ s.against card.id, credit.amountCents = card.faceValueCents) :
    Overspent card s ↔ 0 < card.faceValueCents ∧ 2 ≤ (s.against card.id).length := by
  have hmap : (s.against card.id).map Credit.amountCents =
      List.replicate (s.against card.id).length card.faceValueCents := map_eq_replicate_iff.mpr hworth
  rw [Overspent, State.ledger, hmap, sum_replicate, nsmul_eq_mul, ← two_exceed_iff]
  exact and_congr_left' length_eq_zero_iff.not.symm

/-- A request for the card writes its credit, which it has yet to look for in the ledger. -/
theorem Watched.credit (h : Watched requests card s₀ s) {i : ι} (hi : (requests i).code = card.code) {credit : Credit}
    (hid : credit.giftCardId = some card.id) (hamount : credit.amountCents = card.faceValueCents)
    (hraised : (s.phase i).raised = false) {c : Card} {s' : State ι} (hsound : Sound requests s')
    (hcards : s'.cards = s.cards) (hcredits : s'.credits = s.credits ++ [credit]) (hnow : s'.now = s.now)
    (hreports : s'.reports = s.reports) (hphase : s'.phase = (s.at i (.credited c)).phase) :
    Watched requests card s₀ s' := by
  have hagainst : s'.against card.id = s.against card.id ++ [credit] := by
    rw [State.against, State.against, hcredits, filter_append, filter_singleton, hid, decide_eq_true rfl]
    rfl
  have hworth : ∀ credit ∈ s'.against card.id, credit.amountCents = card.faceValueCents := by
    rw [hagainst, forall_mem_append, forall_mem_singleton]
    exact ⟨h.worth, hamount⟩
  have hmore : Overspent card s → Overspent card s' := by
    rw [overspent_iff h.worth, overspent_iff hworth, hagainst, length_append]
    exact And.imp_right fun htwo => Nat.le_add_right_of_le htwo
  have hat : ∀ j, s'.phase j = if j = i then .credited c else s.phase j := fun j => by rw [hphase, State.at_phase]
  refine ⟨hsound, hcards ▸ h.listed, hworth, ?_, ?_, hnow ▸ h.later, ?_, fun _ _ => ⟨i, hi, Or.inr ?_⟩⟩
  · intro j _ _
    rw [hagainst]
    exact append_ne_nil_of_right_ne_nil _ (cons_ne_nil _ _)
  · intro j hj ha
    rw [hat] at ha
    split_ifs at ha with hji
    · exact Bool.noConfusion ha
    · exact hmore (h.alarmed j hj ha)
  · intro at' hmem
    rw [hreports] at hmem
    refine (h.reported at' hmem).imp_right ?_
    rintro ⟨j, hj, hr⟩
    have hji : j ≠ i := by
      rintro rfl
      rw [hraised] at hr
      exact Bool.noConfusion hr
    exact ⟨j, hj, by rw [hat, if_neg hji, hr]⟩
  · rw [hat, if_pos rfl]
    rfl

omit [DecidableEq ι] in
/-- What others write, and what time brings, is not about the card. -/
theorem Watched.congr (h : Watched requests card s₀ s) {s' : State ι} (hsound : Sound requests s')
    (hlisted : Listed s'.cards card.id card.code card.faceValueCents)
    (hagainst : s'.against card.id = s.against card.id) (hnow : s.now ≤ s'.now)
    (hreports : ∀ at', (card.id, at') ∈ s'.reports → (card.id, at') ∈ s.reports)
    (hphase : ∀ j, (requests j).code = card.code → s'.phase j = s.phase j) : Watched requests card s₀ s' := by
  have hover : Overspent card s' ↔ Overspent card s := by
    rw [Overspent, Overspent, State.ledger, State.ledger, hagainst]
  refine ⟨hsound, hlisted, hagainst ▸ h.worth, ?_, ?_, h.later.trans hnow, ?_, ?_⟩
  · intro j hj hw
    rw [hphase j hj] at hw
    rw [hagainst]
    exact h.written j hj hw
  · intro j hj ha
    rw [hphase j hj] at ha
    exact hover.mpr (h.alarmed j hj ha)
  · intro at' hmem
    exact (h.reported at' (hreports at' hmem)).imp_right fun ⟨j, hj, hr⟩ => ⟨j, hj, by rw [hphase j hj, hr]⟩
  · intro hexceeds hquiet
    obtain ⟨j, hj, hnotice⟩ := h.noticed (hover.mp hexceeds) hquiet
    exact ⟨j, hj, by rwa [hphase j hj]⟩

/-! ## Every step -/

theorem check_frame (s : State ι) (i : ι) (c : Card) (credited : ℤ) :
    (check s i c credited).now = s.now ∧ (check s i c credited).cards = s.cards ∧
      (check s i c credited).credits = s.credits ∧
      ∃ raised, (check s i c credited).phase = (s.at i (.checked c raised)).phase ∧
        ∀ id at', (id, at') ∈ (check s i c credited).reports → (id, at') ∈ s.reports ∨ id = c.id ∧ raised = true := by
  unfold check
  dsimp only
  split_ifs
  · refine ⟨rfl, rfl, rfl, true, rfl, fun id at' hmem => ?_⟩
    refine (mem_append.mp hmem).imp_right fun hnew => ⟨?_, rfl⟩
    exact (Prod.mk.inj (mem_singleton.mp hnew)).1
  · exact ⟨rfl, rfl, rfl, false, rfl, fun _ _ => Or.inl⟩
  · exact ⟨rfl, rfl, rfl, false, rfl, fun _ _ => Or.inl⟩

/-- A request for another card. -/
theorem Watched.turn_other (h : Watched requests card s₀ s) {i : ι} (hi : (requests i).code ≠ card.code) :
    Watched requests card s₀ (turn requests s i) := by
  have hsound := h.sound.turn i
  have hother : ∀ c, (s.phase i).card? = some c → c.id ≠ card.id := fun c => h.other hi
  have hframe : ∀ phase j, (requests j).code = card.code → (s.at i phase).phase j = s.phase j := by
    intro phase j hj
    rw [State.at_phase, if_neg]
    rintro rfl
    exact hi hj
  unfold Redeem.turn at hsound ⊢
  cases hphase : s.phase i with
  | start =>
    rw [hphase] at hsound
    dsimp only at hsound ⊢
    cases hfind : s.cards.find? (requests i).code with
    | none => rw [hfind] at hsound; exact h.congr hsound h.listed rfl le_rfl (fun _ => id) (hframe _)
    | some c => rw [hfind] at hsound; exact h.congr hsound h.listed rfl le_rfl (fun _ => id) (hframe _)
  | found c =>
    rw [hphase] at hsound
    dsimp only at hsound ⊢
    split_ifs at hsound ⊢
    · exact h.congr hsound h.listed rfl le_rfl (fun _ => id) (hframe _)
    · exact h.congr hsound h.listed rfl le_rfl (fun _ => id) (hframe _)
  | audited c =>
    rw [hphase] at hsound
    exact h.congr hsound h.listed rfl le_rfl (fun _ => id) (hframe _)
  | numbered c creditId =>
    rw [hphase] at hsound hother
    refine h.congr hsound h.listed ?_ le_rfl (fun _ => id) (hframe _)
    have hne := hother c rfl
    simp [State.against, hne]
  | credited c =>
    rw [hphase] at hsound
    exact h.congr hsound (h.listed.redeem _ _) rfl le_rfl (fun _ => id) (hframe _)
  | marked c =>
    rw [hphase] at hsound
    exact h.congr hsound h.listed rfl le_rfl (fun _ => id) (hframe _)
  | summed c credited entries =>
    rw [hphase] at hsound hother
    obtain ⟨hnow, hcards, hcredits, raised, hphases, hreports⟩ := check_frame s i c credited
    refine h.congr hsound (hcards ▸ h.listed) (by rw [State.against, State.against]; exact hcredits ▸ rfl) hnow.ge ?_ ?_
    · exact fun at' hmem => (hreports _ at' hmem).resolve_right fun hnew => hother c rfl hnew.1.symm
    · intro j hj
      rw [hphases]
      exact hframe _ j hj
  | checked c raised =>
    rw [hphase] at hsound
    exact h.congr hsound h.listed rfl le_rfl (fun _ => id) (hframe _)
  | refused => exact h
  | answered c raised creditedCents walletBalanceCents => exact h

/-- A request for the card, with no more than its own state to change. -/
theorem Watched.quietly (h : Watched requests card s₀ s) {i : ι} {phase : Phase} {s' : State ι}
    (hsound : Sound requests s') (hlisted : Listed s'.cards card.id card.code card.faceValueCents)
    (hcredits : s'.credits = s.credits) (hnow : s'.now = s.now) (hreports : s'.reports = s.reports)
    (hphase : s'.phase = (s.at i phase).phase) (hwritten : phase.written = true → (s.phase i).written = true)
    (halarmed : (requests i).code = card.code → phase.alarmed = true → Overspent card s)
    (hraised : (s.phase i).raised = true → phase.raised = true)
    (hpending : (s.phase i).pending = true → Overspent card s → (requests i).code = card.code → phase.pending = true) :
    Watched requests card s₀ s' := by
  refine h.at hsound hlisted hcredits hnow hphase (fun _ hmem => Or.inl (hreports ▸ hmem)) hwritten halarmed
    hraised ?_
  exact fun hi _ hexceeds hp => Or.inr (Or.inl (hpending hp hexceeds hi))

/-- The ledger is checked: either the counter is raised, or someone raised it within the window. -/
theorem Watched.check (h : Watched requests card s₀ s) {i : ι} (hi : (requests i).code = card.code) {c : Card}
    {credited : ℤ} {entries : ℕ} (hphase : s.phase i = .summed c credited entries) :
    Watched requests card s₀ (check s i c credited) := by
  have hheld := h.held hi (congrArg Phase.card? hphase)
  have hsound := h.sound.check credited (h.sound.read i c (congrArg Phase.card? hphase))
  have halarm : c.faceValueCents < credited → Overspent card s := fun hover =>
    h.alarmed i hi (by rw [hphase]; exact decide_eq_true hover)
  have hraised : (s.phase i).raised = false := by rw [hphase]; rfl
  have hwritten : (s.phase i).written = true := by rw [hphase]; rfl
  unfold Redeem.check at hsound ⊢
  dsimp only at hsound ⊢
  by_cases hover : c.faceValueCents < credited
  · rw [if_pos hover] at hsound ⊢
    rcases @firstInWindow_cases s.seen (walletKey c.id) windowMs s.now with
      ⟨previous, hget, hwindow, heq⟩ | ⟨htrue, -⟩
    · rw [heq, if_neg Bool.false_ne_true] at hsound ⊢
      refine h.at hsound h.listed rfl rfl rfl (fun _ => Or.inl) (fun _ => hwritten) (fun _ => nofun) ?_ ?_
      · rw [hraised]
        exact nofun
      · -- the report that stands in the way is one of these requests'
        intro _ hquiet _ _
        refine Or.inr (Or.inr ?_)
        have hreport := h.sound.logged c.id previous hget
        rw [hheld.1] at hreport
        rcases h.reported previous hreport with hold | ⟨j, hj, hr⟩
        · have hlater := h.later
          have hlong := hquiet previous hold
          omega
        · refine ⟨j, ?_, hj, hr⟩
          rintro rfl
          rw [hraised] at hr
          exact Bool.noConfusion hr
    · rw [htrue, if_pos rfl] at hsound ⊢
      refine h.at hsound h.listed rfl rfl rfl ?_ (fun _ => hwritten) (fun _ _ => halarm hover) (fun _ => rfl)
        fun _ _ _ _ => Or.inl rfl
      exact fun at' hmem => (mem_append.mp hmem).imp_right fun _ => ⟨hi, rfl⟩
  · rw [if_neg hover] at hsound ⊢
    refine h.quietly hsound h.listed rfl rfl rfl rfl (fun _ => hwritten) (fun _ => nofun) ?_ fun hp => ?_
    · rw [hraised]
      exact nofun
    · rw [hphase] at hp
      exact absurd (of_decide_eq_true hp) hover

/-- A request for the card. -/
theorem Watched.turn (h : Watched requests card s₀ s) {i : ι} (hi : (requests i).code = card.code) :
    Watched requests card s₀ (turn requests s i) := by
  have hsound := h.sound.turn i
  have hheld : ∀ c, (s.phase i).card? = some c → c.id = card.id ∧ c.faceValueCents = card.faceValueCents :=
    fun c => h.held hi
  unfold Redeem.turn at hsound ⊢
  cases hphase : s.phase i with
  | start =>
    rw [hphase] at hsound
    dsimp only at hsound ⊢
    cases hfind : s.cards.find? (requests i).code with
    | none =>
      rw [hfind] at hsound
      exact h.quietly hsound h.listed rfl rfl rfl rfl nofun (fun _ => nofun) (hphase ▸ nofun) (hphase ▸ nofun)
    | some c =>
      rw [hfind] at hsound
      exact h.quietly hsound h.listed rfl rfl rfl rfl nofun (fun _ => nofun) (hphase ▸ nofun) (hphase ▸ nofun)
  | found c =>
    rw [hphase] at hsound
    dsimp only at hsound ⊢
    split_ifs at hsound ⊢
    · exact h.quietly hsound h.listed rfl rfl rfl rfl nofun (fun _ => nofun) (hphase ▸ nofun) (hphase ▸ nofun)
    · exact h.quietly hsound h.listed rfl rfl rfl rfl nofun (fun _ => nofun) (hphase ▸ nofun) (hphase ▸ nofun)
  | audited c =>
    rw [hphase] at hsound
    exact h.quietly hsound h.listed rfl rfl rfl rfl nofun (fun _ => nofun) (hphase ▸ nofun) (hphase ▸ nofun)
  | numbered c creditId =>
    rw [hphase] at hsound hheld
    obtain ⟨hid, hface⟩ := hheld c rfl
    exact h.credit hi (congrArg some hid) hface (by rw [hphase]; rfl) hsound rfl rfl rfl rfl rfl
  | credited c =>
    rw [hphase] at hsound
    refine h.quietly hsound (h.listed.redeem _ _) rfl rfl rfl rfl ?_ (fun _ => nofun) (hphase ▸ nofun) fun _ _ _ => rfl
    rw [hphase]
    exact id
  | marked c =>
    rw [hphase] at hsound hheld
    obtain ⟨hid, hface⟩ := hheld c rfl
    have hwritten : (s.phase i).written = true := by rw [hphase]; rfl
    refine h.quietly hsound h.listed rfl rfl rfl rfl (fun _ => hwritten) (fun _ ha => ?_) (hphase ▸ nofun) ?_
    · rw [Phase.alarmed, hid, hface] at ha
      exact ⟨h.written i hi hwritten, of_decide_eq_true ha⟩
    · -- every credit of the card is in the sum that it has just read
      intro _ hexceeds _
      rw [Phase.pending, hid, hface]
      exact decide_eq_true hexceeds.2
  | summed c credited entries => exact h.check hi hphase
  | checked c raised =>
    rw [hphase] at hsound
    refine h.quietly hsound h.listed rfl rfl rfl rfl ?_ (fun _ ha => h.alarmed i hi ?_) ?_ (hphase ▸ nofun)
    · rw [hphase]
      exact id
    · rw [hphase]
      exact ha
    · rw [hphase]
      exact id
  | refused => exact h
  | answered c raised creditedCents walletBalanceCents => exact h

theorem Watched.step (h : Watched requests card s₀ s) (e : Event ι) : Watched requests card s₀ (step requests s e) := by
  have hsound := h.sound.step e
  cases e with
  | turn i =>
    by_cases hi : (requests i).code = card.code
    · exact h.turn hi
    · exact h.turn_other hi
  | tick ms =>
    have hlater : s.now ≤ s.now + ms := Int.le_add_of_nonneg_right (Int.natCast_nonneg ms)
    exact h.congr hsound h.listed rfl hlater (fun _ => id) fun _ _ => rfl
  | elsewhere key windowMs other => exact h.congr hsound h.listed rfl le_rfl (fun _ => id) fun _ _ => rfl

/-! ## Whole runs -/

/-- A state in which no request for the card has begun and none has left a credit. -/
structure Fresh (requests : ι → Request) (card : Card) (s : State ι) : Prop where
  sound : Sound requests s
  listed : card ∈ s.cards.rows
  start : ∀ i, (requests i).code = card.code → s.phase i = .start
  clean : s.against card.id = []

omit [DecidableEq ι] in
theorem Fresh.watched (h : Fresh requests card s) : Watched requests card s s where
  sound := h.sound
  listed := ⟨card, h.listed, rfl, rfl, rfl⟩
  worth := by rw [h.clean]; exact nofun
  written := fun i hi hw => by rw [h.start i hi] at hw; exact Bool.noConfusion hw
  alarmed := fun i hi ha => by rw [h.start i hi] at ha; exact Bool.noConfusion ha
  later := le_rfl
  reported := fun _ => Or.inl
  noticed := fun hexceeds => absurd h.clean hexceeds.1

theorem pending_finished (phase : Phase) (h : phase.finished = true) : phase.pending = false := by
  cases phase with
  | refused => rfl
  | answered card raised creditedCents walletBalanceCents => rfl
  | _ => exact Bool.noConfusion h

/-- From a fresh state on, whatever is interleaved: when all requests for the card are done, an overspent card was
reported by one of them unless it had been reported within the window before, and none of them reported another. -/
theorem double_spend_noticed (h : Fresh requests card s₀) (events : List (Event ι))
    (hdone : ∀ i, (requests i).code = card.code → ((run (step requests) s₀ events).phase i).finished = true) :
    (Overspent card (run (step requests) s₀ events) →
      (∀ reportedAt, (card.id, reportedAt) ∈ s₀.reports → windowMs ≤ s₀.now - reportedAt) →
      ∃ i, (requests i).code = card.code ∧ ((run (step requests) s₀ events).phase i).raised = true) ∧
    (¬Overspent card (run (step requests) s₀ events) →
      ∀ i, (requests i).code = card.code → ((run (step requests) s₀ events).phase i).raised = false) := by
  have hwatched : Watched requests card s₀ (run (step requests) s₀ events) :=
    run_invariant (step requests) h.watched (fun _ e hs => hs.step e) events
  refine ⟨fun hexceeds hquiet => ?_, fun hfair i hi => ?_⟩
  · obtain ⟨i, hi, hr | hp⟩ := hwatched.noticed hexceeds hquiet
    · exact ⟨i, hi, hr⟩
    · rw [pending_finished _ (hdone i hi)] at hp
      exact Bool.noConfusion hp
  · have hdone := hdone i hi
    cases hphase : (run (step requests) s₀ events).phase i with
    | refused => rfl
    | answered c raised creditedCents walletBalanceCents =>
      rw [← Bool.not_eq_true]
      exact fun hr => hfair (hwatched.alarmed i hi (by rw [hphase]; exact hr))
    | _ =>
      rw [hphase] at hdone
      exact Bool.noConfusion hdone

/-- One card, which two customers redeem. -/
def giftCard : Card := ⟨7, "0001-0002-0003", 2500, "issued", none⟩

def racers (i : Bool) : Request := ⟨"0001-0002-0003", if i then 1 else 2⟩

def shop : State Bool where
  now := 0
  cards := ⟨[giftCard], nodup_singleton _, nodup_singleton _⟩
  credits := []
  lastId := 40
  seen := default
  reports := []
  phase := fun _ => .start

theorem fresh_shop : Fresh racers giftCard shop where
  sound := ⟨fun _ => nofun, fun _ => nofun⟩
  listed := mem_singleton_self _
  start := fun _ _ => rfl
  clean := rfl

/-- The two in step. -/
def race : List (Event Bool) := (List.replicate 8 [.turn true, .turn false]).flatten

theorem race_noticed : Overspent giftCard (run (step racers) shop race) ∧
    ∃ i, (racers i).code = giftCard.code ∧ ((run (step racers) shop race).phase i).raised = true := by
  have hexceeds : Overspent giftCard (run (step racers) shop race) :=
    ⟨fun h => absurd (congrArg List.length h) (by decide), by decide⟩
  exact ⟨hexceeds, (double_spend_noticed fresh_shop race (by decide)).1 hexceeds nofun⟩

end PtaasBench.Shopfront.Redeem
