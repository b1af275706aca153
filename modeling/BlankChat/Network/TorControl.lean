import BlankChat.Core.StringUtils
import BlankChat.Lib.Scan

/-!
# The hidden service — `tor_control.cpp`

Before it listens, the relay asks the Tor daemon on its control port for an onion address. The
daemon answers in lines that end with `\r\n`. `read_until` reads from the socket until the
buffer has such an end in it, and what has come behind it stays in the buffer; `Authenticate`
drops its buffer, and does not look at the answer. `getline` takes a line only, at any `\n`.

The socket is the list of what its reads return, until the daemon closes the connection.

The code looks for `250-ServiceID=` anywhere in a line and then takes what follows its first
fourteen characters. This is the address only if the line begins with the marker, as the lines
of the daemon do.

Main result: `hidden_service_exact`, however the answer is cut, the address is the one in the
last line with an address up to the line that ends the answer.
-/

namespace BlankChat.Network

open Lib BlankChat.Core

def prefixLength : ℕ := 14

def lineEnd : Bytes := [0x0D, 0x0A]

/-! ## Reading -/

/-- `boost::asio::read_until` with `"\r\n"`: the buffer and what is left to be read, or an error
at the end of the connection. -/
def readUntil (response : Bytes) : List Bytes → Option (Bytes × List Bytes)
  | [] => if (firstAt lineEnd response).isSome then some (response, []) else none
  | chunk :: chunks =>
      if (firstAt lineEnd response).isSome then some (response, chunk :: chunks)
      else readUntil (response ++ chunk) chunks

/-- `std::getline`: the line, and what is left in the buffer. -/
def getline (response : Bytes) : Bytes × Bytes :=
  (response.takeWhile (· ≠ 0x0A), (response.dropWhile (· ≠ 0x0A)).drop 1)

/-- The buffer has the end of a line in it, and nothing is lost. -/
theorem readUntil_eq_some {response response' : Bytes} {chunks chunks' : List Bytes}
    (h : readUntil response chunks = some (response', chunks')) :
    lineEnd <:+: response' ∧
      response' ++ chunks'.flatten = response ++ chunks.flatten := by
  induction chunks generalizing response with
  | nil =>
      rw [readUntil] at h
      split at h
      · next hend =>
          cases h
          exact ⟨firstAt_isSome_iff.mp hend, rfl⟩
      · cases h
  | cons chunk chunks ih =>
      rw [readUntil] at h
      split at h
      · next hend =>
          cases h
          exact ⟨firstAt_isSome_iff.mp hend, rfl⟩
      · obtain ⟨hend, hall⟩ := ih h
        refine ⟨hend, hall.trans ?_⟩
        rw [List.flatten_cons, List.append_assoc]

theorem readUntil_eq_none_iff {response : Bytes} {chunks : List Bytes} :
    readUntil response chunks = none ↔ ¬ lineEnd <:+: response ++ chunks.flatten := by
  induction chunks generalizing response with
  | nil =>
      rw [readUntil, List.flatten_nil, List.append_nil, ← firstAt_isSome_iff]
      split <;> simp [*]
  | cons chunk chunks ih =>
      rw [readUntil, List.flatten_cons, ← List.append_assoc]
      split
      · next hend =>
          refine iff_of_false nofun (not_not_intro ?_)
          have hinfix := firstAt_isSome_iff.mp hend
          rw [List.append_assoc]
          exact hinfix.trans (List.prefix_append _ _).isInfix
      · exact ih

theorem mem_of_lineEnd {response : Bytes} (h : lineEnd <:+: response) : 0x0A ∈ response :=
  h.subset (List.mem_cons_of_mem _ List.mem_cons_self)

theorem getline_line {line : Bytes} (h : 0x0A ∉ line) (rest : Bytes) :
    getline (line ++ 0x0A :: rest) = (line, rest) := by
  have hline : ∀ c ∈ line, decide (c ≠ 0x0A) = true := by
    intro c hc
    rw [decide_eq_true_eq]
    rintro rfl
    exact h hc
  rw [getline, List.takeWhile_append_of_pos hline, List.dropWhile_append_of_pos hline]
  simp

theorem getline_append {response : Bytes} (h : 0x0A ∈ response) (more : Bytes) :
    getline (response ++ more) = ((getline response).1, (getline response).2 ++ more) := by
  obtain ⟨line, rest, rfl, hline⟩ := List.eq_append_cons_of_mem h
  rw [List.append_assoc, List.cons_append, getline_line hline, getline_line hline]

theorem length_getline {response : Bytes} (h : 0x0A ∈ response) :
    (getline response).2.length < response.length := by
  obtain ⟨line, rest, rfl, hline⟩ := List.eq_append_cons_of_mem h
  rw [getline_line hline, List.length_append, List.length_cons]
  exact Nat.lt_of_lt_of_le (Nat.lt_succ_self _) (Nat.le_add_left _ _)

/-! ## The answer -/

/-- What is looked for in a line. -/
def marker : Bytes := ascii "250-ServiceID="

/-- The line has an address in it. -/
def hasServiceID (line : Bytes) : Bool := (firstAt marker line).isSome

/-- `line.substr(prefixLength)` without a carriage return at its end. -/
def serviceID (line : Bytes) : Bytes :=
  let onionAddress := line.drop prefixLength
  if onionAddress.getLast? = some 0x0D then onionAddress.dropLast else onionAddress

/-- The line ends the answer: an error, or `250 OK`. -/
def isFinal (line : Bytes) : Bool :=
  (ascii "5").isPrefixOf line || (ascii "250 OK").isPrefixOf line

/-- The loop of `ParseAddOnionResponse`: the address at its end. -/
def parseLoop (response onionAddress : Bytes) (chunks : List Bytes) : Bytes :=
  match _ : readUntil response chunks with
  | none => onionAddress
  | some (response', chunks') =>
      let line := (getline response').1
      let onionAddress := if hasServiceID line then serviceID line else onionAddress
      if isFinal line then onionAddress
      else parseLoop (getline response').2 onionAddress chunks'
termination_by response.length + chunks.flatten.length
decreasing_by
  obtain ⟨hend, hall⟩ := readUntil_eq_some ‹_›
  have hshorter := length_getline (mem_of_lineEnd hend)
  have hlength := congrArg List.length hall
  rw [List.length_append, List.length_append] at hlength
  omega

def parseAddOnionResponse (chunks : List Bytes) : Option Bytes :=
  let onionAddress := parseLoop [] [] chunks
  if onionAddress = [] then none else some onionAddress

/-- `Authenticate`, once the command is written: what is left to be read. -/
def authenticate (chunks : List Bytes) : Option (List Bytes) :=
  (readUntil [] chunks).map Prod.snd

/-- What may fail before an answer is read. -/
structure ControlOutcome : Type where
  connected : Bool
  authenticateWritten : Bool
  addOnionWritten : Bool

def createEphemeralHiddenService (o : ControlOutcome) (chunks : List Bytes) : Option Bytes := do
  guard o.connected
  guard o.authenticateWritten
  let chunks ← authenticate chunks
  guard o.addOnionWritten
  parseAddOnionResponse chunks

/-! ## However the answer is cut -/

theorem parseLoop_line {response : Bytes} (h : lineEnd <:+: response) (onionAddress : Bytes) :
    parseLoop response onionAddress [] =
      let line := (getline response).1
      let onionAddress := if hasServiceID line then serviceID line else onionAddress
      if isFinal line then onionAddress
      else parseLoop (getline response).2 onionAddress [] := by
  have hread : readUntil response [] = some (response, []) := by
    rw [readUntil, if_pos (firstAt_isSome_iff.mpr h)]
  rw [parseLoop]
  split
  · next hnone =>
      rw [hread] at hnone
      cases hnone
  · next hsome =>
      rw [hread] at hsome
      cases hsome
      rfl

theorem parseLoop_no_line {response : Bytes} (h : ¬ lineEnd <:+: response) (onionAddress : Bytes) :
    parseLoop response onionAddress [] = onionAddress := by
  have hread : readUntil response [] = none := by
    rw [readUntil_eq_none_iff, List.flatten_nil, List.append_nil]
    exact h
  rw [parseLoop]
  split
  · rfl
  · next hsome =>
      rw [hread] at hsome
      cases hsome

/-- **The loop depends on the bytes alone.** -/
theorem parseLoop_flatten (response onionAddress : Bytes) (chunks : List Bytes) :
    parseLoop response onionAddress chunks =
      parseLoop (response ++ chunks.flatten) onionAddress [] := by
  fun_induction parseLoop response onionAddress chunks with
  | case1 response onionAddress chunks hnone =>
      rw [parseLoop_no_line (readUntil_eq_none_iff.mp hnone)]
  | case2 response onionAddress chunks response' chunks' hsome line address hfinal =>
      obtain ⟨hend, hall⟩ := readUntil_eq_some hsome
      have hlonger := hend.trans (List.prefix_append response' chunks'.flatten).isInfix
      rw [← hall, parseLoop_line hlonger, getline_append (mem_of_lineEnd hend)]
      exact (if_pos hfinal).symm
  | case3 response onionAddress chunks response' chunks' hsome line address hfinal ih =>
      obtain ⟨hend, hall⟩ := readUntil_eq_some hsome
      have hlonger := hend.trans (List.prefix_append response' chunks'.flatten).isInfix
      rw [← hall, parseLoop_line hlonger, getline_append (mem_of_lineEnd hend), ih]
      exact (if_neg hfinal).symm

/-! ## The lines of the answer -/

/-- The bytes of some lines. -/
def linesText (lines : List Bytes) : Bytes := lines.flatMap (· ++ lineEnd)

/-- The lines up to the one that ends the answer. -/
def answerLines : List Bytes → List Bytes
  | [] => []
  | line :: lines => if isFinal line then [line] else line :: answerLines lines

/-- The address in a line: what follows the marker. -/
def addressIn (line : Bytes) : Option Bytes :=
  (firstAt marker line).map fun position => line.drop (position + marker.length)

/-- The address of the last line that has one. -/
def lastAddress (onionAddress : Bytes) (lines : List Bytes) : Bytes :=
  (lines.filterMap addressIn).getLast?.getD onionAddress

theorem lastAddress_cons (onionAddress line : Bytes) (lines : List Bytes) :
    lastAddress onionAddress (line :: lines) =
      lastAddress ((addressIn line).getD onionAddress) lines := by
  unfold lastAddress
  cases hline : addressIn line with
  | none =>
      rw [List.filterMap_cons_none hline]
      rfl
  | some address =>
      rw [List.filterMap_cons_some hline, List.getLast?_cons]
      rfl

/-- In a line that begins with the marker, the address is where the code takes it from. -/
theorem addressIn_of_begins {line : Bytes} (h : marker <+: line) :
    addressIn line = some (line.drop prefixLength) := by
  obtain ⟨rest, rfl⟩ := h
  have hfirst : firstAt marker (marker ++ rest) = some 0 :=
    firstAt_eq_some_iff.mpr ⟨[], rest, rfl, .of_start⟩
  rw [addressIn, hfirst, Option.map_some, Nat.zero_add]
  rfl

theorem addressIn_eq_none {line : Bytes} (h : hasServiceID line = false) :
    addressIn line = none := by
  have hnone : firstAt marker line = none :=
    Option.isNone_iff_eq_none.mp (Option.isSome_eq_false_iff.mp h)
  rw [addressIn, hnone]
  rfl

/-! The carriage return at the end of a line is in none of the words that are looked for. -/

theorem hasServiceID_carriage (line : Bytes) :
    hasServiceID (line ++ [0x0D]) = hasServiceID line := by
  rw [Bool.eq_iff_iff]
  unfold hasServiceID
  rw [firstAt_isSome_iff, firstAt_isSome_iff]
  exact infix_concat_iff (by decide) (by decide)

theorem isPrefixOf_carriage {word : Bytes} (h : 0x0D ∉ word) (line : Bytes) :
    word.isPrefixOf (line ++ [0x0D]) = word.isPrefixOf line := by
  rw [Bool.eq_iff_iff, List.isPrefixOf_iff_prefix, List.isPrefixOf_iff_prefix,
    List.prefix_concat_iff, or_iff_right]
  rintro rfl
  exact h (List.mem_append_right line List.mem_cons_self)

theorem isFinal_carriage (line : Bytes) : isFinal (line ++ [0x0D]) = isFinal line := by
  unfold isFinal
  rw [isPrefixOf_carriage (by decide), isPrefixOf_carriage (by decide)]

theorem serviceID_carriage {line : Bytes} (h : hasServiceID line = true) :
    serviceID (line ++ [0x0D]) = line.drop prefixLength := by
  have hlength : prefixLength ≤ line.length := (firstAt_isSome_iff.mp h).length_le
  unfold serviceID
  rw [List.drop_append_of_le_length hlength]
  dsimp only
  rw [if_pos List.getLast?_concat, List.dropLast_concat]

/-- **The loop on an answer.** -/
theorem parseLoop_linesText {lines : List Bytes} (hlines : ∀ line ∈ lines, 0x0A ∉ line)
    (hmarker : ∀ line ∈ answerLines lines, hasServiceID line = true → marker <+: line)
    {tail : Bytes} (htail : ¬ lineEnd <:+: tail) (onionAddress : Bytes) :
    parseLoop (linesText lines ++ tail) onionAddress [] =
      lastAddress onionAddress (answerLines lines) := by
  induction lines generalizing onionAddress with
  | nil => exact parseLoop_no_line htail onionAddress
  | cons line lines ih =>
      have htext : linesText (line :: lines) ++ tail =
          (line ++ [0x0D]) ++ 0x0A :: (linesText lines ++ tail) := by
        simp [linesText, lineEnd]
      have hline : 0x0A ∉ line ++ [0x0D] := by
        simpa using hlines line List.mem_cons_self
      have hend : lineEnd <:+: (line ++ [0x0D]) ++ 0x0A :: (linesText lines ++ tail) :=
        ⟨line, linesText lines ++ tail, by simp [lineEnd]⟩
      have hbegins : hasServiceID line = true → marker <+: line := by
        apply hmarker line
        rw [answerLines]
        split <;> exact List.mem_cons_self
      have haddress : (if hasServiceID (line ++ [0x0D]) then serviceID (line ++ [0x0D])
          else onionAddress) = (addressIn line).getD onionAddress := by
        rw [hasServiceID_carriage]
        split
        · next h =>
            rw [serviceID_carriage h, addressIn_of_begins (hbegins h)]
            rfl
        · next h =>
            rw [addressIn_eq_none (Bool.not_eq_true _ ▸ h)]
            rfl
      rw [htext, parseLoop_line hend, getline_line hline]
      dsimp only
      rw [haddress, isFinal_carriage, answerLines]
      split
      · rw [lastAddress_cons]
        rfl
      · next hfinal =>
          have hlater : ∀ l ∈ answerLines lines, hasServiceID l = true → marker <+: l := by
            intro l hl
            apply hmarker l
            rw [answerLines, if_neg hfinal]
            exact List.mem_cons_of_mem _ hl
          rw [lastAddress_cons, ih (fun l hl => hlines l (List.mem_cons_of_mem _ hl)) hlater]

/-! ## The whole exchange -/

/-- What comes later is not touched if the end of the line comes before it. -/
theorem readUntil_append {response : Bytes} {chunks : List Bytes}
    (h : lineEnd <:+: response ++ chunks.flatten) (later : List Bytes) :
    readUntil response (chunks ++ later) =
      (readUntil response chunks).map fun r => (r.1, r.2 ++ later) := by
  induction chunks generalizing response with
  | nil =>
      rw [List.flatten_nil, List.append_nil] at h
      have hend := firstAt_isSome_iff.mpr h
      cases later with
      | nil =>
          rw [List.append_nil, readUntil, if_pos hend]
          rfl
      | cons chunk later =>
          rw [List.nil_append, readUntil, readUntil, if_pos hend, if_pos hend]
          rfl
  | cons chunk chunks ih =>
      rw [List.cons_append, readUntil, readUntil]
      split
      · rfl
      · rw [List.flatten_cons, ← List.append_assoc] at h
        exact ih h

/-- The answer to `AUTHENTICATE` is taken whole, and nothing behind it. -/
theorem authenticate_append {auth : List Bytes} {status : Bytes}
    (hauth : auth.flatten = status ++ lineEnd) (hstatus : 0x0A ∉ status) (later : List Bytes) :
    ∃ rest, authenticate (auth ++ later) = some (rest ++ later) ∧ rest.flatten = [] := by
  have hend : lineEnd <:+: [] ++ auth.flatten := by
    rw [List.nil_append, hauth]
    exact (List.suffix_append status lineEnd).isInfix
  obtain ⟨⟨response, rest⟩, hread⟩ : ∃ r, readUntil [] auth = some r := by
    rw [← Option.ne_none_iff_exists', Ne, readUntil_eq_none_iff]
    exact not_not_intro hend
  refine ⟨rest, ?_, ?_⟩
  · rw [authenticate, readUntil_append hend, hread]
    rfl
  · obtain ⟨hresponse, hall⟩ := readUntil_eq_some hread
    -- the one line feed is the last byte, so the buffer has everything
    have hsplit : status ++ lineEnd = (status ++ [0x0D]) ++ [0x0A] := by
      rw [List.append_assoc]
      rfl
    have hinit : response <+: (status ++ [0x0D]) ++ [0x0A] := by
      refine ⟨rest.flatten, hall.trans ?_⟩
      rw [List.nil_append, hauth, hsplit]
    rcases List.prefix_concat_iff.mp hinit with rfl | hshorter
    · rw [List.nil_append, hauth, hsplit] at hall
      exact List.append_right_eq_self.mp hall
    · have hmem := hshorter.subset (mem_of_lineEnd hresponse)
      simp [hstatus] at hmem

/-- **The address that the relay gets.** The daemon answers `AUTHENTICATE` with one line,
whatever it says, and `ADD_ONION` with some lines; both answers may come in any pieces. If the
commands get out, and the marker comes in no line but at its beginning, the relay has the address
of the last line with an address up to the first one that is an error or `250 OK`, and no
address if it is empty or there is none. -/
theorem hidden_service_exact (o : ControlOutcome) (auth reply : List Bytes) (status tail : Bytes)
    (lines : List Bytes) (hauth : auth.flatten = status ++ lineEnd) (hstatus : 0x0A ∉ status)
    (hreply : reply.flatten = linesText lines ++ tail) (hlines : ∀ line ∈ lines, 0x0A ∉ line)
    (hmarker : ∀ line ∈ answerLines lines, hasServiceID line = true → marker <+: line)
    (htail : ¬ lineEnd <:+: tail) :
    createEphemeralHiddenService o (auth ++ reply) =
      if o.connected ∧ o.authenticateWritten ∧ o.addOnionWritten ∧
        lastAddress [] (answerLines lines) ≠ []
      then some (lastAddress [] (answerLines lines)) else none := by
  obtain ⟨rest, hauthenticate, hrest⟩ := authenticate_append hauth hstatus reply
  have hparse : parseLoop [] [] (rest ++ reply) = lastAddress [] (answerLines lines) := by
    rw [parseLoop_flatten, List.flatten_append, hrest, List.nil_append, List.nil_append, hreply]
    exact parseLoop_linesText hlines hmarker htail []
  obtain ⟨connected, authenticateWritten, addOnionWritten⟩ := o
  unfold createEphemeralHiddenService parseAddOnionResponse
  simp only [hauthenticate, Option.bind_eq_bind, Option.bind_some, hparse]
  cases connected <;> cases authenticateWritten <;> cases addOnionWritten <;>
    simp [guard]

/-- Where the marker stands further on in the line, the code does not get the address. -/
example : serviceID (ascii "xx250-ServiceID=abc") = ascii "D=abc" ∧
    addressIn (ascii "xx250-ServiceID=abc") = some (ascii "abc") := by
  decide

/-- An answer in three pieces. -/
theorem hidden_service_exact_pieces :
    createEphemeralHiddenService ⟨true, true, true⟩
      [ascii "250 ", ascii "OK\r\n", ascii "250-Servi", ascii "ceID=abc\r", ascii "\n250 OK\r\n"] =
      some (ascii "abc") := by
  have h := hidden_service_exact ⟨true, true, true⟩ [ascii "250 ", ascii "OK\r\n"]
    [ascii "250-Servi", ascii "ceID=abc\r", ascii "\n250 OK\r\n"] (ascii "250 OK") []
    [ascii "250-ServiceID=abc", ascii "250 OK"] (by decide) (by decide) (by decide) (by decide)
    (by decide) (by decide)
  rw [show [ascii "250 ", ascii "OK\r\n", ascii "250-Servi", ascii "ceID=abc\r",
    ascii "\n250 OK\r\n"] = [ascii "250 ", ascii "OK\r\n"] ++ [ascii "250-Servi",
    ascii "ceID=abc\r", ascii "\n250 OK\r\n"] from rfl, h]
  decide

end BlankChat.Network
