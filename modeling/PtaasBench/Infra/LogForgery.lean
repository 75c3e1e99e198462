import Mathlib.Data.List.GetD
import PtaasBench.Infra.AccessLog

/-!
# PtaasBench.Infra.LogForgery — which requests the log can be forged with

A line is its pieces: the server's numbers stand between those of the client in front and those behind.
The reader looks for them at two places, and each is decided by what the client wrote.
-/

namespace PtaasBench.Infra

open Py Lib List

/-! ## A line as its pieces -/

section Pieces

variable (w : Served) (r : Request)

/-- The server's numbers, and the pieces behind them. -/
def serverAndBack : List Text := [digits w.status, digits w.sent, digits w.received] ++ r.back

/-- The pieces of a line. -/
def linePieces : List Text := ([w.time, w.peer] ++ r.front) ++ serverAndBack w r

theorem pieces_logFields : pieces '|' (logFields w r) = linePieces w r := by
  have hserver : pieces '|' [w.time, w.peer] = [w.time, w.peer] :=
    pieces_of_notMem (by simp [w.time_plain, w.peer_plain])
  have hnumbers : pieces '|' [digits w.status, digits w.sent, digits w.received] =
      [digits w.status, digits w.sent, digits w.received] :=
    pieces_of_notMem (by
      simp only [mem_cons, not_mem_nil, or_false, forall_eq_or_imp, forall_eq]
      exact ⟨notMem_digits (by decide), notMem_digits (by decide), notMem_digits (by decide)⟩)
  have hfields : logFields w r = ([w.time, w.peer] ++ [r.method, r.path, r.query]) ++
      ([digits w.status, digits w.sent, digits w.received] ++ [r.host, r.agent]) := rfl
  rw [hfields, pieces_append, pieces_append, pieces_append, hserver, hnumbers]
  rfl

/-- The line break is all that is stripped. -/
theorem rdropWhile_logLine : (logLine w r).rdropWhile (· = '\n') = joined '|' (logFields w r) := by
  obtain ⟨before, hbefore⟩ : ∃ before, joined '|' (logFields w r) = before ++ '|' :: r.agent := by
    refine ⟨joined '|' [w.time, w.peer, r.method, r.path, r.query, digits w.status, digits w.sent,
      digits w.received, r.host], ?_⟩
    simp only [logFields, joined_cons_cons, joined_singleton, append_assoc, cons_append]
  rw [logLine, hbefore, rdropWhile_concat_pos _ _ _ (by decide), rdropWhile_eq_self_iff]
  intro hne hbreak
  have hlast : (before ++ '|' :: r.agent).getLast hne ∈ '|' :: r.agent := by
    rw [getLast_append_of_ne_nil _ (cons_ne_nil _ _)]
    exact getLast_mem _
  rw [of_decide_eq_true hbreak] at hlast
  rcases mem_cons.mp hlast with h | h
  · exact absurd h (by decide)
  · exact r.oneLine h

theorem three_le_front : 3 ≤ r.front.length := by
  have hmethod : (r.method.splitOn '|').length = _ := length_splitOn r.method
  have hpath : (r.path.splitOn '|').length = _ := length_splitOn r.path
  have hquery : (r.query.splitOn '|').length = _ := length_splitOn r.query
  simp only [Request.front, pieces, flatMap_cons, flatMap_nil, length_append, length_nil]
  omega

theorem two_le_back : 2 ≤ r.back.length := by
  have hhost : (r.host.splitOn '|').length = _ := length_splitOn r.host
  have hagent : (r.agent.splitOn '|').length = _ := length_splitOn r.agent
  simp only [Request.back, pieces, flatMap_cons, flatMap_nil, length_append, length_nil]
  omega

theorem length_linePieces : (linePieces w r).length = r.front.length + r.back.length + 5 := by
  simp only [linePieces, serverAndBack, length_append, length_cons, length_nil]
  omega

end Pieces

/-! ## The two readings -/

/-- The fields of pieces that are read from the front. -/
def direct (ps : List Text) : Fields where
  time := ps.getD 0 []
  peer := ps.getD 1 []
  method := ps.getD 2 []
  path := ps.getD 3 []
  query := ps.getD 4 []
  status := ps.getD 5 []
  sent := ps.getD 6 []
  received := ps.getD 7 []
  host := ps.getD 8 []
  agent := joined '|' (ps.drop 9)

theorem fieldsOf_direct {ps : List Text} (h : 10 ≤ ps.length) :
    fieldsOf (ps.take 9 ++ [joined '|' (ps.drop 9)]) = some (direct ps) := by
  rcases ps with _ | ⟨p0, _ | ⟨p1, _ | ⟨p2, _ | ⟨p3, _ | ⟨p4, _ | ⟨p5, _ | ⟨p6, _ | ⟨p7, _ | ⟨p8, rest⟩⟩⟩⟩⟩⟩⟩⟩⟩
  all_goals first | rfl | (simp only [length_cons, length_nil] at h; omega)

/-- The last six of a list. -/
theorem exists_last_six {α : Type} {l : List α} (h : 6 ≤ l.length) :
    ∃ init a b c d e f, l = init ++ [a, b, c, d, e, f] := by
  have hlength : (l.drop (l.length - 6)).length = 6 := by
    rw [length_drop]
    omega
  obtain ⟨a, b, c, d, e, f, hlast⟩ : ∃ a b c d e f, l.drop (l.length - 6) = [a, b, c, d, e, f] := by
    match l.drop (l.length - 6), hlength with
    | [a, b, c, d, e, f], _ => exact ⟨a, b, c, d, e, f, rfl⟩
  exact ⟨l.take (l.length - 6), a, b, c, d, e, f, by rw [← hlast, take_append_drop]⟩

/-- The fields of pieces that are read from the back, the path in the middle. -/
theorem exists_rejoin {ps : List Text} (h : 10 < ps.length) :
    ∃ f, rejoin ps = some f ∧ f.peer = ps.getD 1 [] ∧ f.path = joined '|' ((ps.drop 3).take (ps.length - 9)) ∧
      f.status = ps.getD (ps.length - 5) [] ∧ f.sent = ps.getD (ps.length - 4) [] ∧
      f.received = ps.getD (ps.length - 3) [] := by
  obtain ⟨p0, p1, p2, rest, rfl⟩ : ∃ p0 p1 p2 rest, ps = p0 :: p1 :: p2 :: rest := by
    match ps, h with
    | p0 :: p1 :: p2 :: rest, _ => exact ⟨p0, p1, p2, rest, rfl⟩
  obtain ⟨init, q, st, se, re, ho, ag, rfl⟩ := exists_last_six (l := rest) (by
    simp only [length_cons] at h
    omega)
  have hlength : (p0 :: p1 :: p2 :: (init ++ [q, st, se, re, ho, ag])).length = init.length + 9 := by
    simp
  have hinit : 1 ≤ init.length := by omega
  have hmiddle : ((p0 :: p1 :: p2 :: (init ++ [q, st, se, re, ho, ag])).drop 3).take init.length = init :=
    take_left
  have hlast : (p0 :: p1 :: p2 :: (init ++ [q, st, se, re, ho, ag])).drop (init.length + 3) =
      [q, st, se, re, ho, ag] := by
    rw [drop_succ_cons, drop_succ_cons, drop_succ_cons, drop_left]
  have hget : ∀ i, (p0 :: p1 :: p2 :: (init ++ [q, st, se, re, ho, ag])).getD (init.length + 3 + i) [] =
      [q, st, se, re, ho, ag].getD i [] := by
    intro i
    rw [getD_eq_getElem?_getD, ← List.getElem?_drop, hlast, getD_eq_getElem?_getD]
  refine ⟨{ time := p0, peer := p1, method := p2, path := joined '|' init, query := q, status := st, sent := se,
            received := re, host := ho, agent := ag }, ?_, rfl, ?_, ?_, ?_, ?_⟩
  · unfold rejoin
    dsimp only
    rw [hlength, show 1 + (init.length + 9 - 10) = init.length by omega, hmiddle,
      show 4 + (init.length + 9 - 10) = init.length + 3 by omega, hlast]
    rfl
  · rw [hlength, show init.length + 9 - 9 = init.length by omega, hmiddle]
  · rw [hlength, show init.length + 9 - 5 = init.length + 3 + 1 by omega, hget]
    rfl
  · rw [hlength, show init.length + 9 - 4 = init.length + 3 + 2 by omega, hget]
    rfl
  · rw [hlength, show init.length + 9 - 3 = init.length + 3 + 3 by omega, hget]
    rfl

section Reading

variable [DigitRuntime]

/-- `parse` on the pieces of a line. -/
def readPieces (ps : List Text) : Option Record :=
  if statusLike (ps.getD 5 []) && countLike (ps.getD 6 []) then some (numbered (direct ps))
  else if ps.length ≤ 10 then none
  else (rejoin ps).bind fun f => if statusLike f.status then some (numbered f) else none

theorem parse_logLine (w : Served) (r : Request) : parse (logLine w r) = readPieces (linePieces w r) := by
  have hfront := three_le_front r
  have hback := two_le_back r
  have hlength := length_linePieces w r
  have hsplit : (joined '|' (logFields w r)).splitOn '|' = linePieces w r := by
    rw [splitOn_joined (by simp [logFields]), pieces_logFields]
  have hparts : splitMax '|' 9 (joined '|' (logFields w r)) =
      (linePieces w r).take 9 ++ [joined '|' ((linePieces w r).drop 9)] := by
    rw [splitMax, hsplit]
    exact if_neg (by omega)
  have hhead : (joined '|' ((linePieces w r).take 9 ++ [joined '|' ((linePieces w r).drop 9)])).splitOn '|' =
      linePieces w r := by
    rw [joined_take_joined_drop (by omega), ← hsplit, joined_splitOn, hsplit]
  unfold parse
  dsimp only
  rw [rdropWhile_logLine, hparts, fieldsOf_direct (by omega), hhead]
  dsimp only
  rw [readPieces]
  cases rejoin (linePieces w r) <;> rfl

end Reading

/-! ## Where the server's numbers are -/

section Places

variable (w : Served) (r : Request)

theorem getD_front {i : ℕ} (h : i < r.front.length) : (linePieces w r).getD (2 + i) [] = r.front.getD i [] := by
  rw [linePieces, getD_append _ _ _ _ (by simp; omega), getD_append_right _ _ _ _ (by simp)]
  congr 1
  simp

theorem getD_back (i : ℕ) : (linePieces w r).getD (2 + r.front.length + i) [] =
    (serverAndBack w r).getD i [] := by
  have hfront : ([w.time, w.peer] ++ r.front).length = 2 + r.front.length := by
    simp
    omega
  rw [linePieces, getD_append_right _ _ _ _ (by omega), hfront, Nat.add_sub_cancel_left]

/-- The pieces taken for the path, read from the back. -/
theorem drop_linePieces : (linePieces w r).drop 3 = r.front.drop 1 ++ serverAndBack w r := by
  have hfront := three_le_front r
  rcases hpieces : r.front with _ | ⟨first, rest⟩
  · rw [hpieces] at hfront
    exact absurd hfront (by decide)
  · rw [linePieces, hpieces]
    rfl

variable [DigitRuntime]

theorem statusCode_digits : parseInt ((digits w.status).take 3) = some (w.status : ℤ) := by
  have hthree : (digits w.status).length ≤ 3 := length_digits_le (by decide) w.status_digits.2
  rw [take_of_length_le hthree]
  exact parseInt_digits (hthree.trans (by decide))

omit w r in
theorem byteCount_digits {n : ℕ} (h : n < 2 ^ 63) : byteCount (digits n) = n := by
  have hlength : (digits n).length ≤ 19 := length_digits_le (by decide) (by omega)
  rw [byteCount, parseInt_digits (hlength.trans (by decide))]
  show max (n : ℤ) 0 = n
  omega

/-- The reading from the front takes the client's pieces for the server's numbers. -/
theorem anchored_iff (h : 4 ≤ r.front.length) :
    (statusLike ((linePieces w r).getD 5 []) && countLike ((linePieces w r).getD 6 [])) = true ↔ r.Anchored := by
  have hstatus : (linePieces w r).getD 5 [] = r.front.getD 3 [] := getD_front w r (i := 3) h
  have hsent : countLike ((linePieces w r).getD 6 []) = true ↔
      r.front.length = 4 ∨ countLike (r.front.getD 4 []) = true := by
    by_cases hfour : r.front.length = 4
    · have hplace : (linePieces w r).getD 6 [] = digits w.status := by
        have hback := getD_back w r 0
        rw [hfour] at hback
        exact hback
      rw [hplace, countLike_digits]
      exact iff_of_true rfl (Or.inl hfour)
    · have hplace : (linePieces w r).getD 6 [] = r.front.getD 4 [] := getD_front w r (i := 4) (by omega)
      rw [hplace]
      exact ⟨Or.inr, fun hcase => hcase.resolve_left hfour⟩
  rw [Bool.and_eq_true, hstatus, hsent]
  rfl

/-- Without the anchor, a line is read from the back. -/
theorem parse_of_not_anchored (h : 4 ≤ r.front.length) (hanchor : ¬ r.Anchored) :
    ∃ f, parse (logLine w r) = (if statusLike f.status then some (numbered f) else none) ∧ f.peer = w.peer ∧
      f.path = joined '|' (((linePieces w r).drop 3).take (r.front.length + r.back.length - 4)) ∧
      f.status = (serverAndBack w r).getD (r.back.length - 2) [] ∧
      f.sent = (serverAndBack w r).getD (r.back.length - 1) [] ∧
      f.received = (serverAndBack w r).getD r.back.length [] := by
  have hback := two_le_back r
  have hlength := length_linePieces w r
  obtain ⟨f, hrejoin, hpeer, hpath, hstatus, hsent, hreceived⟩ := exists_rejoin
    (show 10 < (linePieces w r).length by omega)
  have hplace : ∀ i j, r.front.length + r.back.length + i = 2 + r.front.length + j →
      (linePieces w r).getD (r.front.length + r.back.length + i) [] = (serverAndBack w r).getD j [] := by
    intro i j hij
    rw [hij, getD_back w r]
  refine ⟨f, ?_, hpeer, ?_, ?_, ?_, ?_⟩
  · rw [parse_logLine, readPieces, if_neg fun htest => hanchor ((anchored_iff w r h).mp htest), if_neg (by omega),
      hrejoin, Option.bind_some]
  · rw [hpath]
    congr 2
    omega
  · rw [hstatus, ← hplace 0 _ (by omega)]
    congr 1
    omega
  · rw [hsent, ← hplace 1 _ (by omega)]
    congr 1
    omega
  · rw [hreceived, ← hplace 2 _ (by omega)]
    congr 1
    omega

end Places

/-! ## Requests that cannot forge -/

section Requests

variable {r : Request}

theorem front_of_plain (h : '|' ∉ r.method ∧ '|' ∉ r.path ∧ '|' ∉ r.query) :
    r.front = [r.method, r.path, r.query] := by
  obtain ⟨hmethod, hpath, hquery⟩ := h
  exact pieces_of_notMem (by simp [hmethod, hpath, hquery])

theorem length_front : r.front.length = r.method.count '|' + r.path.count '|' + r.query.count '|' + 3 := by
  simp only [Request.front, pieces, flatMap_cons, flatMap_nil, length_append, length_nil,
    length_splitOn]
  omega

theorem length_back : r.back.length = r.host.count '|' + r.agent.count '|' + 2 := by
  simp only [Request.back, pieces, flatMap_cons, flatMap_nil, length_append, length_nil,
    length_splitOn]
  omega

theorem plain_or_four : ('|' ∉ r.method ∧ '|' ∉ r.path ∧ '|' ∉ r.query) ∨ 4 ≤ r.front.length := by
  by_cases hplain : '|' ∉ r.method ∧ '|' ∉ r.path ∧ '|' ∉ r.query
  · exact Or.inl hplain
  · right
    simp only [← count_eq_zero] at hplain
    rw [length_front]
    omega

variable [DigitRuntime]

/-- Without separators in front of the numbers, they are where they are looked for. -/
theorem faithful_of_plain (h : '|' ∉ r.method ∧ '|' ∉ r.path ∧ '|' ∉ r.query) (w : Served) : Faithful w r := by
  have hfront := front_of_plain h
  have hthree : r.front.length = 3 := by rw [hfront]; rfl
  have hpath : (linePieces w r).getD 3 [] = r.path := by
    rw [getD_front w r (i := 1) (by omega), hfront]
    rfl
  have hplace : ∀ i, (linePieces w r).getD (5 + i) [] = (serverAndBack w r).getD i [] := by
    intro i
    have hback := getD_back w r i
    rw [hthree] at hback
    exact hback
  have hstatus : (linePieces w r).getD 5 [] = digits w.status := hplace 0
  have hsent : (linePieces w r).getD 6 [] = digits w.sent := hplace 1
  have hreceived : (linePieces w r).getD 7 [] = digits w.received := hplace 2
  intro record hrecord
  rw [parse_logLine, readPieces, hstatus, hsent, statusLike_digits, countLike_digits, Bool.and_self, if_pos rfl] at hrecord
  obtain rfl := Option.some.inj hrecord
  refine ⟨rfl, hpath, ?_, ?_, ?_⟩
  · rw [numbered_statusCode, direct, hstatus, statusCode_digits]
  · rw [numbered_sentBytes, direct, hsent, byteCount_digits w.sent_lt]
  · rw [numbered_receivedBytes, direct, hreceived, byteCount_digits w.received_lt]

/-- Separators in the path alone are put back. -/
theorem faithful_of_pathOnly (hfour : 4 ≤ r.front.length) (hanchor : ¬ r.Anchored) (h : r.PathOnly) (w : Served) :
    Faithful w r := by
  obtain ⟨hmethod, hquery, hhost, hagent⟩ := h
  have hfront : r.front = [r.method] ++ r.path.splitOn '|' ++ [r.query] := by
    rw [Request.front, pieces_cons, pieces_cons, show pieces '|' [r.query] = [r.query] from
      pieces_of_notMem (by simp [hquery]),
      splitOn_eq_singleton hmethod, append_assoc]
  have hback : r.back = [r.host, r.agent] := pieces_of_notMem (by simp [hhost, hagent])
  have htwo : r.back.length = 2 := by rw [hback]; rfl
  obtain ⟨f, hparse, hpeer, hpath, hstatus, hsent, hreceived⟩ := parse_of_not_anchored w r hfour hanchor
  rw [htwo] at hstatus hsent hreceived
  have hmiddle : (linePieces w r).drop 3 = r.path.splitOn '|' ++ ([r.query] ++ serverAndBack w r) := by
    rw [drop_linePieces, hfront]
    show (r.path.splitOn '|' ++ [r.query]) ++ serverAndBack w r = _
    rw [append_assoc]
  have hcount : r.front.length + r.back.length - 4 = (r.path.splitOn '|').length := by
    rw [htwo, hfront]
    simp only [length_append, length_singleton]
    omega
  rw [hmiddle, hcount, take_left, joined_splitOn] at hpath
  have hstatus' : f.status = digits w.status := hstatus
  have hsent' : f.sent = digits w.sent := hsent
  have hreceived' : f.received = digits w.received := hreceived
  intro record hrecord
  rw [hparse, hstatus', statusLike_digits, if_pos rfl] at hrecord
  obtain rfl := Option.some.inj hrecord
  refine ⟨hpeer, hpath, ?_, ?_, ?_⟩
  · rw [numbered_statusCode, hstatus', statusCode_digits]
  · rw [numbered_sentBytes, hsent', byteCount_digits w.sent_lt]
  · rw [numbered_receivedBytes, hreceived', byteCount_digits w.received_lt]

omit [DigitRuntime] in
/-- The status of a line read from the back, when at least three pieces follow the numbers. -/
theorem getD_serverAndBack (w : Served) (h : 3 ≤ r.back.length) :
    (serverAndBack w r).getD (r.back.length - 2) [] =
      ([digits w.sent, digits w.received] ++ r.back).getD (r.back.length - 3) [] := by
  rw [show r.back.length - 2 = (r.back.length - 3) + 1 by omega]
  rfl

omit [DigitRuntime] in
theorem getD_numbers (w : Served) (h : 5 ≤ r.back.length) :
    ([digits w.sent, digits w.received] ++ r.back).getD (r.back.length - 3) [] =
      r.back.getD (r.back.length - 5) [] := by
  rw [getD_append_right _ _ _ _ (by simp; omega)]
  congr 1

theorem faithful_of_refused (hfour : 4 ≤ r.front.length) (hanchor : ¬ r.Anchored) (h : r.Refused) (w : Served) :
    Faithful w r := by
  obtain ⟨hfive, hstatus⟩ := h
  obtain ⟨f, hparse, -, -, hplace, -, -⟩ := parse_of_not_anchored w r hfour hanchor
  rw [getD_serverAndBack w (by omega), getD_numbers w hfive] at hplace
  intro record hrecord
  rw [hparse, hplace, hstatus, if_neg Bool.false_ne_true] at hrecord
  cases hrecord

/-! ## Requests that forge -/

omit [DigitRuntime]

/-- A response of a status. -/
def response (status : ℕ) (h : 100 ≤ status ∧ status < 1000) : Served where
  time := "2026-07-14T09:12:44+0000".toList
  peer := "10.88.0.9".toList
  status := status
  sent := 196
  received := 120
  time_plain := by decide
  peer_plain := by decide
  status_digits := h
  sent_lt := by decide
  received_lt := by decide

def ok : Served := response 200 (by decide)

def notFound : Served := response 404 (by decide)

variable [DigitRuntime]

/-- A line whose status is read off the same text, whatever the server answered, is not faithful to both
of two answers. -/
theorem not_faithful_of_code (code : Option ℤ)
    (h : ∀ w : Served, w.sent = 196 → w.received = 120 →
      ∃ record, parse (logLine w r) = some record ∧ record.statusCode = code) :
    ¬ ∀ w, Faithful w r := by
  intro hall
  obtain ⟨first, hfirst, hcode⟩ := h ok rfl rfl
  obtain ⟨second, hsecond, hcode'⟩ := h notFound rfl rfl
  have hok := (hall ok first hfirst).2.2.1
  have hnotFound := (hall notFound second hsecond).2.2.1
  rw [hcode] at hok
  rw [hcode', hok] at hnotFound
  exact absurd hnotFound (by decide)

theorem not_faithful_of_anchored (hfour : 4 ≤ r.front.length) (h : r.Anchored) : ¬ ∀ w, Faithful w r := by
  refine not_faithful_of_code (parseInt ((r.front.getD 3 []).take 3)) fun w _ _ => ?_
  refine ⟨numbered (direct (linePieces w r)), ?_, ?_⟩
  · rw [parse_logLine, readPieces, if_pos ((anchored_iff w r hfour).mpr h)]
  · have hplace : (linePieces w r).getD 5 [] = r.front.getD 3 [] := getD_front w r (i := 3) hfour
    rw [numbered_statusCode, direct, hplace]

omit [DigitRuntime] in
/-- Pieces between separators hold none. -/
theorem notMem_linePieces {w : Served} {piece : Text} (h : piece ∈ linePieces w r) : '|' ∉ piece := by
  rw [← pieces_logFields, ← splitOn_joined (by simp [logFields])] at h
  rw [splitOn_eq_splitOnP] at h
  intro hsep
  have := forall_of_mem_splitOnP h '|' hsep
  simp at this

omit [DigitRuntime] in
theorem count_joined {fields : List Text} (hsome : fields ≠ []) (h : ∀ field ∈ fields, '|' ∉ field) :
    (joined '|' fields).count '|' + 1 = fields.length := by
  rw [← length_splitOn, splitOn_joined hsome, pieces_of_notMem h]

/-- The path that is put back has every separator in front of the numbers. -/
theorem not_faithful_of_two (hfour : 4 ≤ r.front.length) (hanchor : ¬ r.Anchored) (htwo : r.back.length = 2)
    (h : ¬ r.PathOnly) : ¬ ∀ w, Faithful w r := by
  intro hall
  obtain ⟨f, hparse, -, hpath, hstatus, -, -⟩ := parse_of_not_anchored ok r hfour hanchor
  rw [htwo] at hstatus hpath
  have hstatus' : f.status = digits ok.status := hstatus
  rw [hstatus', statusLike_digits, if_pos rfl] at hparse
  have hsame : f.path = r.path := (hall ok _ hparse).2.1
  have hfront := length_front (r := r)
  have hback := length_back (r := r)
  have hlength : (((linePieces ok r).drop 3).take (r.front.length + 2 - 4)).length = r.front.length - 2 := by
    rw [length_take, length_drop, length_linePieces]
    omega
  have hsome : ((linePieces ok r).drop 3).take (r.front.length + 2 - 4) ≠ [] := by
    intro hnil
    rw [hnil, length_nil] at hlength
    omega
  have hseps := count_joined hsome fun piece hpiece =>
    notMem_linePieces (mem_of_mem_drop (mem_of_mem_take hpiece))
  rw [← hpath, hsame, hlength] at hseps
  refine h ⟨?_, ?_, ?_, ?_⟩
  all_goals
    rw [← count_eq_zero]
    omega

/-- Pieces behind the numbers push them out of their places. -/
theorem not_faithful_of_three (hfour : 4 ≤ r.front.length) (hanchor : ¬ r.Anchored) (hthree : 3 ≤ r.back.length)
    (h : ¬ r.Refused) : ¬ ∀ w, Faithful w r := by
  refine not_faithful_of_code (parseInt ((([digits 196, digits 120] ++ r.back).getD
    (r.back.length - 3) []).take 3)) fun w hsent hreceived => ?_
  obtain ⟨f, hparse, -, -, hstatus, -, -⟩ := parse_of_not_anchored w r hfour hanchor
  rw [getD_serverAndBack w hthree, hsent, hreceived] at hstatus
  have hlike : statusLike f.status = true := by
    by_cases hfive : 5 ≤ r.back.length
    · have hback := getD_numbers w hfive
      rw [hsent, hreceived] at hback
      rw [hstatus, hback]
      by_contra hnot
      exact h ⟨hfive, Bool.eq_false_iff.mpr hnot⟩
    · rw [hstatus]
      rcases (by omega : r.back.length = 3 ∨ r.back.length = 4) with hlength | hlength
      · rw [hlength]
        exact statusLike_digits 196
      · rw [hlength]
        exact statusLike_digits 120
  rw [hlike, if_pos rfl] at hparse
  refine ⟨numbered f, hparse, ?_⟩
  rw [numbered_statusCode, hstatus]

/-- A line that is read as another response than was written. -/
theorem not_faithful_of_read {w : Served} {path : Text} {code : Option ℤ} {sent received : ℤ}
    (h : (parse (logLine w r)).map (fun record =>
      (record.path, record.statusCode, record.sentBytes, record.receivedBytes)) = some (path, code, sent, received))
    (hpath : path ≠ r.path) : ¬ Faithful w r := by
  obtain ⟨record, hrecord, hfields⟩ := Option.map_eq_some_iff.mp h
  intro hfaithful
  exact hpath ((Prod.mk.inj hfields).1.symm.trans (hfaithful record hrecord).2.1)

end Requests

/-- The log cannot be forged by a request exactly if it writes no separator in front of the server's
numbers, or its pieces are not where the numbers are looked for. -/
theorem faithful_iff_unforging [DigitRuntime] (r : Request) : (∀ w, Faithful w r) ↔ r.Unforging := by
  rcases plain_or_four (r := r) with hplain | hfour
  · exact iff_of_true (faithful_of_plain hplain) (Or.inl hplain)
  · have hplain : ¬ ('|' ∉ r.method ∧ '|' ∉ r.path ∧ '|' ∉ r.query) := by
      intro h
      rw [front_of_plain h] at hfour
      exact absurd hfour (by simp)
    have hback := two_le_back r
    constructor
    · intro hall
      have hanchor : ¬ r.Anchored := fun h => not_faithful_of_anchored hfour h hall
      refine Or.inr ⟨hanchor, ?_⟩
      by_contra hneither
      rcases (by omega : r.back.length = 2 ∨ 3 ≤ r.back.length) with htwo | hthree
      · exact not_faithful_of_two hfour hanchor htwo (fun h => hneither (Or.inl h)) hall
      · exact not_faithful_of_three hfour hanchor hthree (fun h => hneither (Or.inr h)) hall
    · rintro (h | ⟨hanchor, hpath | hrefused⟩) w
      · exact absurd h hplain
      · exact faithful_of_pathOnly hfour hanchor hpath w
      · exact faithful_of_refused hfour hanchor hrefused w

/-! ## A settings file that was never sent -/

@[reducible] def DigitRuntime.ascii : DigitRuntime where
  toRuntime := Runtime.ascii
  decimal c := if c.isDigit then some (c.toNat - 48) else none
  decimal_ascii _ _ := rfl

/-- A request for a file that is not there, under a name of several pieces. -/
def forgery : Request where
  method := "GET".toList
  path := "/.env||200|999999|10".toList
  query := []
  host := "www.northlakefab.com".toList
  agent := "curl/8.6.0".toList
  oneLine := by decide

/-- The line of the refusal says that the settings file was served in full. -/
theorem forgery_is_read :
    let _ := DigitRuntime.ascii
    ((parse (logLine notFound forgery)).map fun record =>
        (record.path, record.statusCode, record.sentBytes, record.receivedBytes)) =
      some ("/.env".toList, some 200, 999999, 10) ∧ ¬ Faithful notFound forgery := by
  intro rt
  have hread : (parse (logLine notFound forgery)).map (fun record =>
      (record.path, record.statusCode, record.sentBytes, record.receivedBytes)) =
      some ("/.env".toList, some 200, 999999, 10) := by
    rfl
  exact ⟨hread, not_faithful_of_read hread (by decide)⟩

end PtaasBench.Infra
