import Mathlib.Algebra.Order.Ring.Int
import Mathlib.Data.List.Nodup
import Mathlib.Tactic.SplitIfs
import PtaasBench.Lib.Requests
import PtaasBench.Py.Text

/-!
# PtaasBench.Intranet.Expenses — expense claims: creation, lines, submission, reimbursement

The four routes that write to the tables, one statement of SQL at a time: each `db.write` commits on its own connection,
so that the statements of two requests mix in any order.
-/

namespace PtaasBench.Intranet.Expenses

open Lib Py List

/-! ## The tables -/

inductive Stage where
  | draft
  | itemised
  | submitted
  | reviewed
  | reimbursed
deriving DecidableEq

/-- The place in `STAGES`. -/
def Stage.rank : Stage → ℕ
  | draft => 0
  | itemised => 1
  | submitted => 2
  | reviewed => 3
  | reimbursed => 4

structure Person where
  id : ℤ
  team : String
  role : String

structure Claim where
  id : ℤ
  personId : ℤ
  title : String
  stage : Stage
  closed : Bool
deriving DecidableEq

structure Line where
  claimId : ℤ
  description : String
  category : String
  amountCents : ℤ
  addedBy : ℤ

structure StageRow where
  claimId : ℤ
  stage : Stage
  byPerson : ℤ

structure Tables where
  claims : List Claim
  lines : List Line
  stages : List StageRow

namespace Tables

/-- `SELECT … FROM claims WHERE id = ?` -/
def claim? (t : Tables) (id : ℤ) : Option Claim := t.claims.find? fun c => c.id = id

/-- `SELECT stage FROM claim_stages WHERE claim_id = ? ORDER BY id` -/
def walked (t : Tables) (id : ℤ) : List Stage := (t.stages.filter fun row => row.claimId = id).map StageRow.stage

/-- `_total` -/
def total (t : Tables) (id : ℤ) : ℤ := ((t.lines.filter fun line => line.claimId = id).map Line.amountCents).sum

/-- `SELECT COUNT(*) FROM claim_lines WHERE claim_id = ?` -/
def lineCount (t : Tables) (id : ℤ) : ℕ := (t.lines.filter fun line => line.claimId = id).length

/-- The key that SQLite gives a new claim. -/
def newId (t : Tables) : ℤ := ((t.claims.map Claim.id).max?.map (· + 1)).getD 1

/-- `INSERT INTO claims` -/
def insertClaim (t : Tables) (personId : ℤ) (title : String) : Tables :=
  { t with claims := t.claims ++ [⟨t.newId, personId, title, .draft, false⟩] }

/-- `INSERT INTO claim_lines` -/
def insertLine (t : Tables) (line : Line) : Tables := { t with lines := t.lines ++ [line] }

/-- `INSERT INTO claim_stages` -/
def insertStage (t : Tables) (id : ℤ) (stage : Stage) (byPerson : ℤ) : Tables :=
  { t with stages := t.stages ++ [⟨id, stage, byPerson⟩] }

end Tables

/-- What an update makes of a row; `closed = 1` is set with the last stage. -/
def Claim.moved (id : ℤ) (into : Stage) (c : Claim) : Claim :=
  if c.id = id then { c with stage := into, closed := c.closed || into = .reimbursed } else c

/-- `UPDATE claims SET stage = … WHERE id = ?` -/
def Tables.setStage (t : Tables) (id : ℤ) (into : Stage) : Tables :=
  { t with claims := t.claims.map (Claim.moved id into) }

/-! ## The routes -/

inductive Signal where
  | ownerMismatch (claimId : ℤ) (claimant author : String) (amountCents : ℤ)
  | outOfOrder (claimId : ℤ) (walked : List Stage) (claimant : String) (amountCents : ℤ)
deriving DecidableEq

def categories : List String := ["Mileage", "Accommodation", "Subsistence", "Equipment", "Travel", "Other"]

/-- What a route was asked; an amount is in cents, `none` where it is not a number. -/
inductive Request where
  | create (me : Person) (tokenOk : Bool) (title : String)
  | addLine (me : Person) (claimId : ℤ) (description : String) (amount : Option ℤ) (category : String)
  | submit (me : Person) (claimId : ℤ) (tokenOk : Bool)
  | reimburse (me : Person) (claimId : ℤ)

/-- What a request has done last, and what it remembers. -/
inductive Phase where
  | start
  | refused
  | created (id : ℤ)
  | read (row : Claim)
  | lined (row : Claim)
  | counted (row : Claim) (lines : ℕ)
  | moved (row : Claim) (into : Stage)
  | staged (row : Claim)
  | walked (row : Claim) (stages : List Stage)
  | answered

/-- The line that `add_line` would insert.  Amounts are not bounded here: beyond 64 bits the database raises, at the
insert or at the sum, before anything is written. -/
def newLine (me : Person) (claimId : ℤ) (description : String) (amount : Option ℤ) (category : String) : Option Line :=
  match amount with
  | none => none
  | some amount =>
    if strip description = "" ∨ amount ≤ 0 then none
    else some {
      claimId := claimId
      description := String.ofList ((strip description).toList.take 200)
      category := if category ∈ categories then category else "Other"
      amountCents := amount
      addedBy := me.id }

/-- Somebody else's claim. -/
def Foreign (me : Person) (personId : ℤ) : Prop := personId ≠ me.id ∧ me.team ≠ "Finance" ∧ me.role ≠ "operations"

instance (me : Person) (personId : ℤ) : Decidable (Foreign me personId) := by
  unfold Foreign
  infer_instance

-- the addresses in the table of people
variable (email : ℤ → String)

/-- The counter of `add_line`. -/
def lineSignals (me : Person) (claimId personId : ℤ) (amount : Option ℤ) : List Signal :=
  if Foreign me personId then [.ownerMismatch claimId (email personId) (email me.id) (amount.getD 0)] else []

/-- The next statement of a request, with the code in front of it. -/
def turn : Request → Tables → Phase → Tables × Phase × List Signal
  | .create me tokenOk title, t, .start =>
    if tokenOk ∧ strip title ≠ "" then
      (t.insertClaim me.id (String.ofList ((strip title).toList.take 120)), .created t.newId, [])
    else (t, .refused, [])
  | .create me _ _, t, .created id => (t.insertStage id .draft me.id, .answered, [])
  | .addLine _ id _ _ _, t, .start => (t, ((t.claim? id).map Phase.read).getD .refused, [])
  | .addLine me id description amount category, t, .read row =>
    match newLine me id description amount category with
    | some line => if row.closed then (t, .refused, []) else (t.insertLine line, .lined row, [])
    | none => (t, .refused, [])
  | .addLine me id _ amount _, t, .lined row =>
    if row.stage = .draft then (t.setStage id .itemised, .moved row .itemised, [])
    else (t, .answered, lineSignals email me id row.personId amount)
  | .addLine me id _ _ _, t, .moved row into => (t.insertStage id into me.id, .staged row, [])
  | .addLine me id _ amount _, t, .staged row => (t, .answered, lineSignals email me id row.personId amount)
  | .submit _ id _, t, .start => (t, ((t.claim? id).map Phase.read).getD .refused, [])
  | .submit me id tokenOk, t, .read row =>
    if tokenOk ∧ row.personId = me.id ∧ row.stage ∈ [.draft, .itemised] then (t, .counted row (t.lineCount id), [])
    else (t, .refused, [])
  | .submit _ id _, t, .counted row lines =>
    if lines = 0 then (t, .refused, []) else (t.setStage id .submitted, .moved row .submitted, [])
  | .submit me id _, t, .moved row into => (t.insertStage id into me.id, .staged row, [])
  | .submit _ _ _, t, .staged _ => (t, .answered, [])
  | .reimburse _ id, t, .start => (t, ((t.claim? id).map Phase.read).getD .refused, [])
  | .reimburse _ id, t, .read row =>
    if row.closed then (t, .refused, []) else (t.setStage id .reimbursed, .moved row .reimbursed, [])
  | .reimburse me id, t, .moved row into => (t.insertStage id into me.id, .staged row, [])
  | .reimburse _ id, t, .staged row => (t, .walked row (t.walked id), [])
  | .reimburse _ id, t, .walked row stages =>
    if .reviewed ∈ stages.dropLast then (t, .answered, [])
    else (t, .answered, [.outOfOrder id stages (email row.personId) (t.total id)])
  | _, t, phase => (t, phase, [])

/-! ## Reading after writing -/

theorem claim?_setStage (t : Tables) (id : ℤ) (into : Stage) (id' : ℤ) :
    (t.setStage id into).claim? id' = (t.claim? id').map (Claim.moved id into) := by
  have hid : ∀ c : Claim, (c.moved id into).id = c.id := by
    intro c
    unfold Claim.moved
    split_ifs <;> rfl
  rw [Tables.claim?, Tables.setStage, List.find?_map]
  simp only [Function.comp_def, hid]
  rfl

theorem claim?_id {t : Tables} {id : ℤ} {c : Claim} (h : t.claim? id = some c) : c.id = id := by
  simpa using List.find?_some h

theorem newId_notMem (t : Tables) : ∀ c ∈ t.claims, c.id ≠ t.newId := by
  intro c hc hid
  have hmem : c.id ∈ t.claims.map Claim.id := mem_map_of_mem hc
  unfold Tables.newId at hid
  cases hmax : (t.claims.map Claim.id).max? with
  | none => exact absurd (List.max?_eq_none_iff.mp hmax) (ne_nil_of_mem hmem)
  | some m =>
    have hle : c.id ≤ m := (List.max?_le_iff hmax).mp (le_refl m) c.id hmem
    rw [hmax, Option.map_some, Option.getD_some] at hid
    omega

theorem claim?_newId (t : Tables) : t.claim? t.newId = none :=
  List.find?_eq_none.mpr fun c hc h => newId_notMem t c hc (of_decide_eq_true h)

theorem claim?_insertClaim (t : Tables) (personId : ℤ) (title : String) (id : ℤ) :
    (t.insertClaim personId title).claim? id =
      if id = t.newId then some ⟨t.newId, personId, title, .draft, false⟩ else t.claim? id := by
  unfold Tables.claim? Tables.insertClaim
  rw [List.find?_append]
  by_cases hid : id = t.newId
  · rw [if_pos hid, hid]
    have hnone : t.claims.find? (fun c => c.id = t.newId) = none := claim?_newId t
    rw [hnone, Option.none_or, List.find?_singleton, if_pos (decide_eq_true rfl)]
  · rw [if_neg hid, List.find?_singleton, if_neg (by simpa using fun h => hid h.symm), Option.or_none]

theorem walked_insertStage (t : Tables) (id : ℤ) (into : Stage) (me id' : ℤ) :
    (t.insertStage id into me).walked id' = if id' = id then t.walked id' ++ [into] else t.walked id' := by
  unfold Tables.walked Tables.insertStage
  rw [filter_append, map_append]
  by_cases h : id' = id
  · rw [if_pos h, filter_cons_of_pos (by simpa using h.symm)]
    rfl
  · rw [if_neg h, filter_cons_of_neg (by simpa using fun he => h he.symm)]
    exact append_nil _

theorem total_insertLine (t : Tables) (line : Line) {id : ℤ} (h : id ≠ line.claimId) :
    (t.insertLine line).total id = t.total id := by
  unfold Tables.total Tables.insertLine
  have hnone : [line].filter (fun line => line.claimId = id) = [] :=
    filter_cons_of_neg (by simpa using fun he => h he.symm)
  rw [filter_append, hnone, append_nil]

/-! ## Statements of any requests, in any order -/

variable {email}

/-- What the statements of the other requests may do meanwhile. -/
structure Later (t t' : Tables) : Prop where
  owner : ∀ id c, t.claim? id = some c → ∃ c', t'.claim? id = some c' ∧ c'.personId = c.personId
  walked : ∀ id, ∃ added, t'.walked id = t.walked id ++ added ∧ .reviewed ∉ added

theorem Later.refl (t : Tables) : Later t t :=
  ⟨fun _ c h => ⟨c, h, rfl⟩, fun _ => ⟨[], (append_nil _).symm, nofun⟩⟩

theorem Later.insertClaim (t : Tables) (personId : ℤ) (title : String) : Later t (t.insertClaim personId title) where
  owner id c h := by
    rw [claim?_insertClaim, if_neg fun hid => absurd (claim?_newId t) (by rw [← hid, h]; exact Option.some_ne_none c)]
    exact ⟨c, h, rfl⟩
  walked := (Later.refl t).walked

theorem Later.insertLine (t : Tables) (line : Line) : Later t (t.insertLine line) :=
  ⟨(Later.refl t).owner, (Later.refl t).walked⟩

theorem Later.setStage (t : Tables) (id : ℤ) (into : Stage) : Later t (t.setStage id into) where
  owner id' c h := by
    rw [claim?_setStage, h]
    refine ⟨c.moved id into, rfl, ?_⟩
    unfold Claim.moved
    split_ifs <;> rfl
  walked := (Later.refl t).walked

theorem Later.insertStage (t : Tables) (id : ℤ) {into : Stage} (me : ℤ) (h : into ≠ .reviewed) :
    Later t (t.insertStage id into me) where
  owner := (Later.refl t).owner
  walked id' := by
    rw [walked_insertStage]
    split_ifs with hid
    · exact ⟨[into], rfl, fun hmem => h (mem_singleton.mp hmem).symm⟩
    · exact ⟨[], (append_nil _).symm, nofun⟩

theorem Later.reviewed_iff {t t' : Tables} (h : Later t t') (id : ℤ) :
    .reviewed ∈ t'.walked id ↔ .reviewed ∈ t.walked id := by
  obtain ⟨added, hadded, hno⟩ := h.walked id
  rw [hadded, mem_append]
  exact or_iff_left hno

/-- A claim whose last stage is not the review has none that comes last. -/
theorem Later.last {t t' : Tables} (h : Later t t') {id : ℤ} (hlast : (t.walked id).getLast? ≠ some .reviewed) :
    (t'.walked id).getLast? ≠ some .reviewed := by
  obtain ⟨added, hadded, hno⟩ := h.walked id
  rw [hadded, List.getLast?_append]
  cases hget : added.getLast? with
  | none => exact hlast
  | some stage => exact fun he => hno (Option.some.inj he ▸ mem_of_getLast? hget)

def Request.claimId? : Request → Option ℤ
  | .create _ _ _ => none
  | .addLine _ id _ _ _ => some id
  | .submit _ id _ => some id
  | .reimburse _ id => some id

/-- The row in hand is of the claim that was asked for, and still of its owner. -/
def Held (r : Request) (t : Tables) (row : Claim) : Prop :=
  ∀ id ∈ r.claimId?, ∃ c, t.claim? id = some c ∧ c.personId = row.personId

variable (email) in
/-- What a request that is answered has to have told, going by the tables. -/
def Owed : Request → Tables → List Signal → Prop
  | .create _ _ _, _, told => told = []
  | .submit _ _ _, _, told => told = []
  | .addLine me id _ amount _, t, told =>
    ∃ c, t.claim? id = some c ∧ told = lineSignals email me id c.personId amount
  | .reimburse _ id, t, told =>
    (.reviewed ∈ t.walked id → told = []) ∧ (.reviewed ∉ t.walked id →
      ∃ c stages amount, t.claim? id = some c ∧ told = [.outOfOrder id stages (email c.personId) amount])

variable (email) in
/-- Where a request stands, whatever runs beside it. -/
def Standing (r : Request) (t : Tables) : Phase → List Signal → Prop
  | .start, told => told = []
  | .refused, told => told = []
  | .created _, told => told = []
  | .read row, told => told = [] ∧ Held r t row
  | .lined row, told => told = [] ∧ Held r t row
  | .counted row _, told => told = [] ∧ Held r t row
  | .moved row into, told => told = [] ∧ Held r t row ∧ into ≠ .reviewed
  | .staged row, told => told = [] ∧ Held r t row ∧ ∀ id ∈ r.claimId?, (t.walked id).getLast? ≠ some .reviewed
  | .walked row stages, told =>
    told = [] ∧ Held r t row ∧ ∀ id ∈ r.claimId?, (.reviewed ∈ stages.dropLast ↔ .reviewed ∈ t.walked id)
  | .answered, told => Owed email r t told

theorem Held.later {r : Request} {t t' : Tables} {row : Claim} (h : Held r t row) (hlater : Later t t') :
    Held r t' row := by
  intro id hid
  obtain ⟨c, hc, howner⟩ := h id hid
  obtain ⟨c', hc', howner'⟩ := hlater.owner id c hc
  exact ⟨c', hc', howner'.trans howner⟩

theorem Owed.later {r : Request} {t t' : Tables} {told : List Signal} (h : Owed email r t told)
    (hlater : Later t t') : Owed email r t' told := by
  cases r with
  | create _ _ _ => exact h
  | submit _ _ _ => exact h
  | addLine me id _ amount _ =>
    obtain ⟨c, hc, htold⟩ := h
    obtain ⟨c', hc', howner⟩ := hlater.owner id c hc
    exact ⟨c', hc', howner ▸ htold⟩
  | reimburse _ id =>
    refine ⟨fun hmem => h.1 ((hlater.reviewed_iff id).mp hmem), fun hno => ?_⟩
    obtain ⟨c, stages, amount, hc, htold⟩ := h.2 fun hmem => hno ((hlater.reviewed_iff id).mpr hmem)
    obtain ⟨c', hc', howner⟩ := hlater.owner id c hc
    exact ⟨c', stages, amount, hc', howner ▸ htold⟩

theorem Standing.later {r : Request} {t t' : Tables} {p : Phase} {told : List Signal}
    (h : Standing email r t p told) (hlater : Later t t') : Standing email r t' p told := by
  cases p with
  | start => exact h
  | refused => exact h
  | created id => exact h
  | read row => exact ⟨h.1, h.2.later hlater⟩
  | lined row => exact ⟨h.1, h.2.later hlater⟩
  | counted row lines => exact ⟨h.1, h.2.later hlater⟩
  | moved row into => exact ⟨h.1, h.2.1.later hlater, h.2.2⟩
  | staged row => exact ⟨h.1, h.2.1.later hlater, fun id hid => hlater.last (h.2.2 id hid)⟩
  | walked row stages =>
    exact ⟨h.1, h.2.1.later hlater, fun id hid => (h.2.2 id hid).trans (hlater.reviewed_iff id).symm⟩
  | answered => exact Owed.later h hlater

/-- The row that a request reads first. -/
theorem standing_read {r : Request} {id : ℤ} (hid : r.claimId? = some id) (t : Tables) :
    Standing email r t (((t.claim? id).map Phase.read).getD .refused) [] := by
  cases hc : t.claim? id with
  | none => exact rfl
  | some c =>
    refine ⟨rfl, fun id' hid' => ?_⟩
    obtain rfl := Option.some.inj (hid.symm.trans hid')
    exact ⟨c, hc, rfl⟩

/-- A stage that was inserted comes last. -/
theorem last_insertStage (t : Tables) (id : ℤ) {into : Stage} (me : ℤ) (h : into ≠ .reviewed) :
    ((t.insertStage id into me).walked id).getLast? ≠ some .reviewed := by
  rw [walked_insertStage, if_pos rfl, List.getLast?_concat]
  exact fun he => h (Option.some.inj he)

/-- Without the last stage, the walk has the review where the whole walk has it. -/
theorem reviewed_dropLast {stages : List Stage} (h : stages.getLast? ≠ some .reviewed) :
    .reviewed ∈ stages.dropLast ↔ .reviewed ∈ stages := by
  refine ⟨fun hmem => (dropLast_sublist stages).subset hmem, fun hmem => ?_⟩
  have hne : stages ≠ [] := ne_nil_of_mem hmem
  rw [← dropLast_append_getLast hne, mem_append, mem_singleton] at hmem
  refine hmem.resolve_right fun hlast => h ?_
  rw [hlast, List.getLast?_eq_some_getLast hne]

/-- The turn that enters the stage of the claim. -/
theorem standing_staged {r : Request} {t : Tables} {row : Claim} {into : Stage} {id : ℤ} (hid : r.claimId? = some id)
    (hrow : Held r t row) (hinto : into ≠ .reviewed) (me : ℤ) :
    Later t (t.insertStage id into me) ∧ Standing email r (t.insertStage id into me) (.staged row) [] := by
  have hlater := Later.insertStage t id me hinto
  refine ⟨hlater, rfl, hrow.later hlater, fun id' hid' => ?_⟩
  obtain rfl := Option.some.inj (hid.symm.trans hid')
  exact last_insertStage t id me hinto

/-- A turn of the request itself. -/
theorem turn_standing {r : Request} {t : Tables} {p : Phase} {told : List Signal} (h : Standing email r t p told) :
    Later t (turn email r t p).1 ∧
      Standing email r (turn email r t p).1 (turn email r t p).2.1 (told ++ (turn email r t p).2.2) := by
  have hself := Later.refl t
  have hstay : Standing email r t p (told ++ []) := by rwa [append_nil]
  cases r with
  | create me tokenOk title =>
    cases p with
    | start =>
      obtain rfl := h
      rw [turn]
      split_ifs
      · exact ⟨Later.insertClaim t me.id _, rfl⟩
      · exact ⟨hself, rfl⟩
    | created id =>
      obtain rfl := h
      exact ⟨Later.insertStage t id me.id (by decide), rfl⟩
    | _ => exact ⟨hself, hstay⟩
  | addLine me id description amount category =>
    have howes {row : Claim} (hrow : Held (.addLine me id description amount category) t row) :
        Owed email (.addLine me id description amount category) t (lineSignals email me id row.personId amount) := by
      obtain ⟨c, hc, howner⟩ := hrow id rfl
      exact ⟨c, hc, by rw [howner]⟩
    cases p with
    | start =>
      obtain rfl := h
      exact ⟨hself, standing_read rfl t⟩
    | read row =>
      obtain ⟨rfl, hrow⟩ := h
      rw [turn]
      split
      · rename_i line _
        split_ifs
        · exact ⟨hself, rfl⟩
        · have hlater := Later.insertLine t line
          exact ⟨hlater, rfl, hrow.later hlater⟩
      · exact ⟨hself, rfl⟩
    | lined row =>
      obtain ⟨rfl, hrow⟩ := h
      rw [turn]
      split_ifs
      · have hlater := Later.setStage t id .itemised
        exact ⟨hlater, rfl, hrow.later hlater, by decide⟩
      · exact ⟨hself, howes hrow⟩
    | moved row into =>
      obtain ⟨rfl, hrow, hinto⟩ := h
      exact standing_staged rfl hrow hinto me.id
    | staged row =>
      obtain ⟨rfl, hrow, -⟩ := h
      exact ⟨hself, howes hrow⟩
    | _ => exact ⟨hself, hstay⟩
  | submit me id tokenOk =>
    cases p with
    | start =>
      obtain rfl := h
      exact ⟨hself, standing_read rfl t⟩
    | read row =>
      obtain ⟨rfl, hrow⟩ := h
      rw [turn]
      split_ifs
      · exact ⟨hself, rfl, hrow⟩
      · exact ⟨hself, rfl⟩
    | counted row lines =>
      obtain ⟨rfl, hrow⟩ := h
      rw [turn]
      split_ifs
      · exact ⟨hself, rfl⟩
      · have hlater := Later.setStage t id .submitted
        exact ⟨hlater, rfl, hrow.later hlater, by decide⟩
    | moved row into =>
      obtain ⟨rfl, hrow, hinto⟩ := h
      exact standing_staged rfl hrow hinto me.id
    | staged row =>
      obtain ⟨rfl, -, -⟩ := h
      exact ⟨hself, rfl⟩
    | _ => exact ⟨hself, hstay⟩
  | reimburse me id =>
    cases p with
    | start =>
      obtain rfl := h
      exact ⟨hself, standing_read rfl t⟩
    | read row =>
      obtain ⟨rfl, hrow⟩ := h
      rw [turn]
      split_ifs
      · exact ⟨hself, rfl⟩
      · have hlater := Later.setStage t id .reimbursed
        exact ⟨hlater, rfl, hrow.later hlater, by decide⟩
    | moved row into =>
      obtain ⟨rfl, hrow, hinto⟩ := h
      exact standing_staged rfl hrow hinto me.id
    | staged row =>
      obtain ⟨rfl, hrow, hlast⟩ := h
      refine ⟨hself, rfl, hrow, fun id' hid' => ?_⟩
      obtain rfl := Option.some.inj hid'
      exact reviewed_dropLast (hlast id rfl)
    | walked row stages =>
      obtain ⟨rfl, hrow, hreviewed⟩ := h
      obtain ⟨c, hc, howner⟩ := hrow id rfl
      rw [turn]
      split_ifs with hmem
      · exact ⟨hself, fun _ => rfl, fun hno => absurd ((hreviewed id rfl).mp hmem) hno⟩
      · refine ⟨hself, fun hyes => absurd ((hreviewed id rfl).mpr hyes) hmem, fun _ => ?_⟩
        exact ⟨c, stages, t.total id, hc, by rw [howner]; rfl⟩
    | _ => exact ⟨hself, hstay⟩

/-- A request that is not answered has told nothing. -/
theorem Standing.silent {r : Request} {t : Tables} {p : Phase} {told : List Signal} (h : Standing email r t p told)
    (hp : p ≠ .answered) : told = [] := by
  cases p with
  | start => exact h
  | refused => exact h
  | created id => exact h
  | answered => exact absurd rfl hp
  | _ => exact h.1

/-! ## All requests -/

variable {ι : Type} [DecidableEq ι] (requests : ι → Request)

/-- The requests at their first statement. -/
def opened (t : Tables) : Desk ι Tables Phase Signal := ⟨t, fun _ => .start, fun _ => []⟩

variable (email) in
def serving : ι → Tables → Phase → Tables × Phase × List Signal := fun i => turn email (requests i)

variable (email) in
/-- Whatever the order of the statements, a request that is answered has told what the tables say it owes, and a
request that is not has told nothing. -/
theorem signals_owed (t : Tables) (schedule : List ι) (i : ι) :
    let s := run (Desk.step (serving email requests)) (opened t) schedule
    (s.phase i = .answered → Owed email (requests i) s.shared (s.told i)) ∧
      (s.phase i ≠ .answered → s.told i = []) := by
  intro s
  have hstanding : Standing email (requests i) s.shared (s.phase i) (s.told i) :=
    Desk.run_local (serving email requests) (P := fun i => Standing email (requests i))
      (fun _ _ _ _ h => (turn_standing h).2) (fun _ _ _ _ _ _ _ _ h hj => h.later (turn_standing hj).1)
      (s := opened t) (fun _ => rfl) schedule i
  refine ⟨fun hphase => ?_, fun hphase => hstanding.silent hphase⟩
  rw [hphase] at hstanding
  exact hstanding

/-! ## One request after the other -/

/-- A claim goes through the stages in their order, is where its last row says, and is closed when it is paid. -/
structure Ordered (t : Tables) : Prop where
  known : ∀ row ∈ t.stages, (t.claim? row.claimId).isSome
  ascending : ∀ id c, t.claim? id = some c → ((t.walked id).map Stage.rank).Pairwise (· < ·)
  last : ∀ id c, t.claim? id = some c → (t.walked id).getLast? = some c.stage
  closed : ∀ id c, t.claim? id = some c → (c.closed = true ↔ c.stage = .reimbursed)

theorem Ordered.walked_newId {t : Tables} (h : Ordered t) : t.walked t.newId = [] := by
  rw [Tables.walked, map_eq_nil_iff, filter_eq_nil_iff]
  intro row hrow hid
  have hsome := h.known row hrow
  rw [of_decide_eq_true hid, claim?_newId] at hsome
  cases hsome

theorem Ordered.insertLine {t : Tables} (h : Ordered t) (line : Line) : Ordered (t.insertLine line) :=
  ⟨h.known, h.ascending, h.last, h.closed⟩

theorem Ordered.create {t : Tables} (h : Ordered t) (me : ℤ) (title : String) :
    Ordered ((t.insertClaim me title).insertStage t.newId .draft me) := by
  have hclaim : ∀ id, ((t.insertClaim me title).insertStage t.newId .draft me).claim? id =
      if id = t.newId then some ⟨t.newId, me, title, .draft, false⟩ else t.claim? id := claim?_insertClaim t me title
  have hwalk : ∀ id, ((t.insertClaim me title).insertStage t.newId .draft me).walked id =
      if id = t.newId then [.draft] else t.walked id := by
    intro id
    rw [walked_insertStage]
    split_ifs with hid
    · show t.walked id ++ [.draft] = [.draft]
      rw [hid, h.walked_newId, nil_append]
    · rfl
  constructor
  · intro row hrow
    rw [hclaim]
    split_ifs with hid
    · rfl
    · rcases mem_append.mp hrow with hold | hnew
      · exact h.known row hold
      · exact absurd (congrArg StageRow.claimId (mem_singleton.mp hnew)) hid
  · intro id c hc
    rw [hclaim] at hc
    rw [hwalk]
    split_ifs at hc ⊢ with hid
    · exact pairwise_singleton _ _
    · exact h.ascending id c hc
  · intro id c hc
    rw [hclaim] at hc
    rw [hwalk]
    split_ifs at hc ⊢ with hid
    · exact congrArg some (congrArg Claim.stage (Option.some.inj hc))
    · exact h.last id c hc
  · intro id c hc
    rw [hclaim] at hc
    split_ifs at hc with hid
    · obtain rfl := Option.some.inj hc
      exact ⟨fun hf => absurd hf Bool.false_ne_true, fun hf => (nomatch hf)⟩
    · exact h.closed id c hc

theorem le_of_ascending {stages : List Stage} (h : (stages.map Stage.rank).Pairwise (· < ·)) {last : Stage}
    (hlast : stages.getLast? = some last) : ∀ stage ∈ stages, stage.rank ≤ last.rank := by
  obtain ⟨front, rfl⟩ := List.getLast?_eq_some_iff.mp hlast
  intro stage hmem
  rcases mem_append.mp hmem with hfront | hself
  · rw [map_append, pairwise_append] at h
    exact Nat.le_of_lt (h.2.2 _ (mem_map_of_mem hfront) _ (mem_map_of_mem (mem_singleton_self last)))
  · exact Nat.le_of_eq (congrArg Stage.rank (mem_singleton.mp hself))

/-- A claim that is open moves on to a later stage. -/
theorem Ordered.move {t : Tables} (h : Ordered t) {id : ℤ} {c : Claim} (hc : t.claim? id = some c)
    (hopen : c.closed = false) {into : Stage} (hinto : c.stage.rank < into.rank) (me : ℤ) :
    Ordered ((t.setStage id into).insertStage id into me) := by
  have hclaim : ∀ id', ((t.setStage id into).insertStage id into me).claim? id' =
      (t.claim? id').map (Claim.moved id into) := claim?_setStage t id into
  have hwalk : ∀ id', ((t.setStage id into).insertStage id into me).walked id' =
      if id' = id then t.walked id' ++ [into] else t.walked id' := walked_insertStage (t.setStage id into) id into me
  have hmoved : ∀ id' c', t.claim? id' = some c' → id' = id →
      c' = c ∧ c.moved id into = { c with stage := into, closed := c.closed || into = .reimbursed } := by
    rintro id' c' hc' rfl
    obtain rfl := Option.some.inj (hc'.symm.trans hc)
    exact ⟨rfl, if_pos (claim?_id hc)⟩
  have hother : ∀ id' c', t.claim? id' = some c' → id' ≠ id → c'.moved id into = c' := by
    intro id' c' hc' hne
    exact if_neg (claim?_id hc' ▸ hne)
  constructor
  · intro row hrow
    rw [hclaim, Option.isSome_map]
    rcases mem_append.mp hrow with hold | hnew
    · exact h.known row hold
    · rw [mem_singleton.mp hnew, hc]
      rfl
  · intro id' d hd
    rw [hclaim] at hd
    obtain ⟨c', hc', -⟩ := Option.map_eq_some_iff.mp hd
    rw [hwalk]
    split_ifs with hid
    · rw [map_append, pairwise_append]
      refine ⟨h.ascending id' c' hc', pairwise_singleton _ _, fun a ha b hb => ?_⟩
      obtain ⟨stage, hstage, rfl⟩ := mem_map.mp ha
      obtain rfl := mem_singleton.mp hb
      obtain ⟨rfl, -⟩ := hmoved id' c' hc' hid
      exact Nat.lt_of_le_of_lt (le_of_ascending (h.ascending id' c' hc') (h.last id' c' hc') stage hstage) hinto
    · exact h.ascending id' c' hc'
  · intro id' d hd
    rw [hclaim] at hd
    obtain ⟨c', hc', rfl⟩ := Option.map_eq_some_iff.mp hd
    rw [hwalk]
    split_ifs with hid
    · obtain ⟨rfl, hrow⟩ := hmoved id' c' hc' hid
      rw [hrow, List.getLast?_concat]
    · rw [hother id' c' hc' hid]
      exact h.last id' c' hc'
  · intro id' d hd
    rw [hclaim] at hd
    obtain ⟨c', hc', rfl⟩ := Option.map_eq_some_iff.mp hd
    by_cases hid : id' = id
    · obtain ⟨rfl, hrow⟩ := hmoved id' c' hc' hid
      rw [hrow, hopen, Bool.false_or]
      exact decide_eq_true_iff
    · rw [hother id' c' hc' hid]
      exact h.closed id' c' hc'

/-- The claim is open, and this stage is ahead of it. -/
def Opens (t : Tables) (id : ℤ) (into : Stage) : Prop :=
  ∃ row, t.claim? id = some row ∧ row.closed = false ∧ row.stage.rank < into.rank

theorem Ordered.opens_reimburse {t : Tables} (h : Ordered t) {id : ℤ} {c : Claim} (hc : t.claim? id = some c)
    (hopen : ¬ c.closed = true) : Opens t id .reimbursed := by
  have hne : c.stage ≠ .reimbursed := fun he => hopen ((h.closed id c hc).mpr he)
  refine ⟨c, hc, Bool.eq_false_iff.mpr hopen, ?_⟩
  revert hne
  cases c.stage <;> decide

theorem Ordered.opens_submit {t : Tables} (h : Ordered t) {id : ℤ} {c : Claim} (hc : t.claim? id = some c)
    (hstage : c.stage ∈ [.draft, .itemised]) : Opens t id .submitted := by
  have hclosed := h.closed id c hc
  refine ⟨c, hc, Bool.eq_false_iff.mpr fun he => ?_, ?_⟩
  · rw [hclosed.mp he] at hstage
    exact absurd hstage (by decide)
  · revert hstage
    cases c.stage <;> decide

/-- What a request that runs alone does to the tables. -/
inductive Served (t : Tables) : Tables → Prop where
  | still : Served t t
  | create (me : ℤ) (title : String) : Served t ((t.insertClaim me title).insertStage t.newId .draft me)
  | line {row line} (hrow : t.claim? line.claimId = some row) (hopen : row.closed = false) :
      Served t (t.insertLine line)
  | move {t' id into} (h : Served t t') (hopens : Opens t' id into) (me : ℤ) :
      Served t ((t'.setStage id into).insertStage id into me)

/-- A claim that is closed, with the stages it has walked and the sum of its lines. -/
def Paid (t : Tables) (id : ℤ) (stages : List Stage) (amount : ℤ) : Prop :=
  (∃ c, t.claim? id = some c ∧ c.closed = true) ∧ t.walked id = stages ∧ t.total id = amount

/-- A payment was reported as it stands in the tables. -/
def Reported (t : Tables) : Signal → Prop
  | .outOfOrder id stages _ amount => Paid t id stages amount
  | .ownerMismatch _ _ _ _ => True

theorem Paid.move {t : Tables} {id : ℤ} {stages : List Stage} {amount : ℤ} (h : Paid t id stages amount) {id' : ℤ}
    {c : Claim} (hc : t.claim? id' = some c) (hopen : ¬ c.closed = true) (into : Stage) (me : ℤ) :
    Paid ((t.setStage id' into).insertStage id' into me) id stages amount := by
  obtain ⟨⟨d, hd, hclosed⟩, hwalked, htotal⟩ := h
  have hne : id ≠ id' := by
    rintro rfl
    obtain rfl := Option.some.inj (hd.symm.trans hc)
    exact hopen hclosed
  refine ⟨⟨d, ?_, hclosed⟩, ?_, htotal⟩
  · show (t.setStage id' into).claim? id = some d
    rw [claim?_setStage, hd, Option.map_some, Claim.moved, if_neg (claim?_id hd ▸ hne)]
  · rw [walked_insertStage, if_neg hne]
    exact hwalked

theorem Paid.insertLine {t : Tables} {id : ℤ} {stages : List Stage} {amount : ℤ} (h : Paid t id stages amount)
    {line : Line} {c : Claim} (hc : t.claim? line.claimId = some c) (hopen : ¬ c.closed = true) :
    Paid (t.insertLine line) id stages amount := by
  obtain ⟨⟨d, hd, hclosed⟩, hwalked, htotal⟩ := h
  refine ⟨⟨d, hd, hclosed⟩, hwalked, ?_⟩
  rw [total_insertLine t line, htotal]
  rintro rfl
  obtain rfl := Option.some.inj (hd.symm.trans hc)
  exact hopen hclosed

theorem Paid.create {t : Tables} {id : ℤ} {stages : List Stage} {amount : ℤ} (h : Paid t id stages amount) (me : ℤ)
    (title : String) : Paid ((t.insertClaim me title).insertStage t.newId .draft me) id stages amount := by
  obtain ⟨⟨c, hc, hclosed⟩, hwalked, htotal⟩ := h
  have hne : id ≠ t.newId := fun he => Option.some_ne_none c ((he ▸ hc).symm.trans (claim?_newId t))
  refine ⟨⟨c, ?_, hclosed⟩, ?_, htotal⟩
  · show (t.insertClaim me title).claim? id = some c
    rw [claim?_insertClaim, if_neg hne, hc]
  · rw [walked_insertStage, if_neg hne]
    exact hwalked

theorem newLine_claimId {me : Person} {id : ℤ} {description category : String} {amount : Option ℤ} {line : Line}
    (h : newLine me id description amount category = some line) : line.claimId = id := by
  unfold newLine at h
  split at h
  · cases h
  · split_ifs at h
    · obtain rfl := Option.some.inj h
      rfl
    · obtain rfl := Option.some.inj h
      rfl

theorem Served.ordered {t t' : Tables} (h : Served t t') (hordered : Ordered t) : Ordered t' := by
  induction h with
  | still => exact hordered
  | create me title => exact hordered.create me title
  | line => exact hordered.insertLine _
  | move _ hopens me ih =>
    obtain ⟨row, hrow, hopen, hrank⟩ := hopens
    exact ih.move hrow hopen hrank me

/-- What was paid stays as it was reported. -/
theorem Served.reported {t t' : Tables} (h : Served t t') {signal : Signal} (hsignal : Reported t signal) :
    Reported t' signal := by
  cases signal with
  | ownerMismatch _ _ _ _ => trivial
  | outOfOrder id stages _ amount =>
    have hpaid : Paid t id stages amount := hsignal
    show Paid t' id stages amount
    induction h with
    | still => exact hpaid
    | create me title => exact hpaid.create me title
    | line hrow hopen => exact hpaid.insertLine hrow (Bool.eq_false_iff.mp hopen)
    | move _ hopens me ih =>
      obtain ⟨row, hrow, hopen, -⟩ := hopens
      exact ih.move hrow (Bool.eq_false_iff.mp hopen) _ me

theorem reported_lineSignals (t : Tables) (me : Person) (id personId : ℤ) (amount : Option ℤ) :
    ∀ signal ∈ lineSignals email me id personId amount, Reported t signal := by
  unfold lineSignals
  split_ifs
  · exact forall_mem_singleton.mpr trivial
  · exact forall_mem_nil _

theorem turn_start {r : Request} {id : ℤ} (hid : r.claimId? = some id) (t : Tables) :
    turn email r t .start = (t, ((t.claim? id).map Phase.read).getD .refused, []) := by
  cases r with
  | create me tokenOk title => cases hid
  | _ =>
    obtain rfl := Option.some.inj hid
    rfl

/-- Nothing is left to do. -/
def Finished (p : Phase) : Prop := p = .refused ∨ p = .answered

theorem turn_finished (r : Request) (t : Tables) {p : Phase} (h : Finished p) : turn email r t p = (t, p, []) := by
  rcases h with rfl | rfl
  · cases r <;> rfl
  · cases r <;> rfl

variable (email) in
/-- Served alone from these tables, the request comes to an end, and what it has told is so. -/
abbrev Ends (r : Request) (t : Tables) (n : ℕ) (x : Tables × Phase × List Signal) : Prop :=
  Desk.Ends (turn email r) Finished (fun t' told => Served t t' ∧ ∀ signal ∈ told, Reported t' signal) n x

theorem ends_answered {r : Request} {t t' : Tables} (h : Served t t') {told : List Signal}
    (htold : ∀ signal ∈ told, Reported t' signal) (n : ℕ) : Ends email r t n (t', .answered, told) :=
  .idle (turn_finished r t' (Or.inr rfl)) (Or.inr rfl) ⟨h, htold⟩ n

theorem ends_refused (r : Request) (t : Tables) (n : ℕ) : Ends email r t n (t, .refused, []) :=
  .idle (turn_finished r t (Or.inl rfl)) (Or.inl rfl) ⟨.still, forall_mem_nil _⟩ n

/-- The request goes on if the claim is there. -/
theorem ends_read {r : Request} {id : ℤ} (hid : r.claimId? = some id) {t : Tables} {n : ℕ}
    (h : ∀ row, t.claim? id = some row → Ends email r t n (t, .read row, [])) :
    Ends email r t (n + 1) (t, .start, []) := by
  refine .succ (turn_start hid t) ?_
  cases hclaim : t.claim? id with
  | none => exact ends_refused r t n
  | some row => exact h row hclaim

/-- Five turns are enough for any request that runs alone. -/
theorem ends_start (r : Request) {t : Tables} (h : Ordered t) : Ends email r t 5 (t, .start, []) := by
  cases r with
  | create me tokenOk title =>
    by_cases hok : tokenOk ∧ strip title ≠ ""
    · refine .succ (by rw [turn, if_pos hok]) (.succ rfl ?_)
      exact ends_answered (.create me.id _) (forall_mem_nil _) 3
    · exact .succ (by rw [turn, if_neg hok]) (ends_refused _ t 4)
  | addLine me id description amount category =>
    refine ends_read rfl fun row hrow => ?_
    cases hline : newLine me id description amount category with
    | none => exact .succ (by rw [turn, hline]) (ends_refused _ t 3)
    | some line =>
      have hturn : turn email (.addLine me id description amount category) t (.read row) =
          if row.closed then (t, .refused, []) else (t.insertLine line, .lined row, []) := by
        rw [turn, hline]
      by_cases hclosed : row.closed = true
      · exact .succ (hturn.trans (if_pos hclosed)) (ends_refused _ t 3)
      · have hopen := Bool.eq_false_iff.mpr hclosed
        have hserved : Served t (t.insertLine line) := .line ((newLine_claimId hline).symm ▸ hrow) hopen
        refine .succ (hturn.trans (if_neg hclosed)) ?_
        by_cases hdraft : row.stage = .draft
        · refine .succ (by rw [turn, if_pos hdraft]) (.succ rfl (.succ rfl ?_))
          have hrank : row.stage.rank < Stage.itemised.rank := by
            rw [hdraft]
            decide
          exact ends_answered (hserved.move ⟨row, hrow, hopen, hrank⟩ me.id)
            (reported_lineSignals _ me id _ amount) 0
        · refine .succ (by rw [turn, if_neg hdraft]) ?_
          exact ends_answered hserved (reported_lineSignals _ me id _ amount) 2
  | submit me id tokenOk =>
    refine ends_read rfl fun row hrow => ?_
    by_cases hmay : tokenOk ∧ row.personId = me.id ∧ row.stage ∈ [.draft, .itemised]
    · refine .succ (by rw [turn, if_pos hmay]) ?_
      by_cases hlines : t.lineCount id = 0
      · exact .succ (by rw [turn, if_pos hlines]) (ends_refused _ t 2)
      · refine .succ (by rw [turn, if_neg hlines]) (.succ rfl (.succ rfl ?_))
        exact ends_answered (Served.still.move (h.opens_submit hrow hmay.2.2) me.id) (forall_mem_nil _) 0
    · exact .succ (by rw [turn, if_neg hmay]) (ends_refused _ t 3)
  | reimburse me id =>
    refine ends_read rfl fun row hrow => ?_
    by_cases hclosed : row.closed = true
    · exact .succ (by rw [turn, if_pos hclosed]) (ends_refused _ t 3)
    · have hserved := Served.still.move (h.opens_reimburse hrow hclosed) me.id
      refine .succ (by rw [turn, if_neg hclosed]) (.succ rfl (.succ rfl ?_))
      by_cases hreviewed :
          .reviewed ∈ (((t.setStage id .reimbursed).insertStage id .reimbursed me.id).walked id).dropLast
      · exact .succ (by rw [turn, if_pos hreviewed]) (ends_answered hserved (forall_mem_nil _) 0)
      · refine .succ (by rw [turn, if_neg hreviewed]) (ends_answered hserved ?_ 0)
        refine forall_mem_singleton.mpr ⟨⟨row.moved id .reimbursed, ?_, ?_⟩, rfl, rfl⟩
        · show (t.setStage id .reimbursed).claim? id = _
          rw [claim?_setStage, hrow, Option.map_some]
        · rw [Claim.moved, if_pos (claim?_id hrow)]
          exact Bool.or_true _

variable (email) in
/-- Requests that are served one after the other keep the stages in order, pay a claim once at most, and report it with
the walk and the total that it has ever after. -/
theorem served_in_order {t : Tables} (h : Ordered t) (order : List ι) :
    let s := run (Desk.step (serving email requests)) (opened t) (order.flatMap (List.replicate 5))
    Ordered s.shared ∧ ∀ i, ∀ signal ∈ s.told i, Reported s.shared signal := by
  refine Desk.run_served (serving email requests) (fun i t p => turn_finished (requests i) t) (fun i t ht => ?_) h order
  obtain ⟨t', p, told, hsolo, hfinished, hserved, hreported⟩ := ends_start (requests i) ht
  refine ⟨t', p, told, hsolo, hfinished, hserved.ordered ht, fun signal hsignal => ?_⟩
  exact hsignal.elim hserved.reported (hreported signal)

/-- One claim, just made. -/
def oneClaim : Tables := ⟨[⟨1, 7, "Train to the depot", .draft, false⟩], [], [⟨1, .draft, 7⟩]⟩

def twoPayments : Bool → Request := fun _ => .reimburse ⟨7, "Sales", "member"⟩ 1

theorem ordered_oneClaim : Ordered oneClaim := by
  have hclaim : ∀ id c, oneClaim.claim? id = some c → id = 1 ∧ c = ⟨1, 7, "Train to the depot", .draft, false⟩ := by
    intro id c hc
    have hmem := mem_singleton.mp (mem_of_find?_eq_some hc)
    exact ⟨((claim?_id hc).symm.trans (congrArg Claim.id hmem)), hmem⟩
  constructor
  · intro row hrow
    rw [mem_singleton.mp hrow]
    rfl
  · intro id c hc
    rw [(hclaim id c hc).1]
    exact pairwise_singleton _ _
  · intro id c hc
    rw [(hclaim id c hc).1, (hclaim id c hc).2]
    rfl
  · intro id c hc
    rw [(hclaim id c hc).2]
    decide

theorem served_in_order_oneClaim :
    let s := run (Desk.step (serving (fun _ => "sales@example") twoPayments)) (opened oneClaim)
      ([true, false].flatMap (List.replicate 5))
    Ordered s.shared ∧ ∀ i, ∀ signal ∈ s.told i, Reported s.shared signal :=
  served_in_order (fun _ => "sales@example") twoPayments ordered_oneClaim [true, false]

/-- Statement by statement, two reimbursements of one claim both go through. -/
example :
    (run (Desk.step (serving (fun _ => "sales@example") twoPayments)) (opened oneClaim)
      [true, false, true, false, true, false, true, false, true, false]).shared.walked 1 =
        [.draft, .reimbursed, .reimbursed] := by
  decide

end PtaasBench.Intranet.Expenses
