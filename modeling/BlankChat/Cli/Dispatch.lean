import BlankChat.Cli.Repl

/-!
# The messages inside a frame — `payload_formatter.cpp`, `Repl::ProcessPushFrame`

A plaintext is read twice: `ExtractOpcode` decides which handler gets it, and the handler
parses it. Main result: `formats_exact`. Each parser accepts exactly what its builder
produces, no plaintext is accepted by two of them, and the one that accepts it is the
parser of the handler that the dispatch has chosen.
-/

namespace BlankChat.Cli

open Lib Client

/-- The parser of a kind of message accepts the plaintext. -/
def ParserAccepts (plaintext : Bytes) : PayloadOpcode → Prop
  | .textMessage => parseTextMessage plaintext ≠ none
  | .pfsRotateRequest => parsePfsRotateRequest plaintext ≠ none
  | .pfsRotateAck => parsePfsRotateAck plaintext ≠ none

theorem ParserAccepts.extractOpcode {plaintext : Bytes} {opcode : PayloadOpcode}
    (h : ParserAccepts plaintext opcode) : extractOpcode plaintext = some opcode := by
  cases opcode with
  | textMessage =>
      obtain ⟨text, htext⟩ := Option.ne_none_iff_exists'.mp h
      rw [parseTextMessage_eq_some_iff.mp htext]
      rfl
  | pfsRotateRequest =>
      obtain ⟨data, hdata⟩ := Option.ne_none_iff_exists'.mp h
      exact parsePfsRotate_opcode hdata
  | pfsRotateAck =>
      obtain ⟨data, hdata⟩ := Option.ne_none_iff_exists'.mp h
      exact parsePfsRotate_opcode hdata

namespace Repl

variable {E : Setup} {plaintext : Bytes}

theorem dispatch_of_text {text : Bytes} (h : parseTextMessage plaintext = some text) (r : Repl)
    (a : Bytes) (c : Contact) :
    r.dispatch E a c plaintext =
      if c.initialPfsComplete then (r.handleTextMessage E a c plaintext text, c)
      else (r.print .textBeforeHandshake, c) := by
  have hopcode := parseTextMessage_eq_some_iff.mp h
  unfold dispatch
  rw [h, hopcode, extractOpcode_buildTextMessage]
  cases c.initialPfsComplete <;> rfl

theorem dispatch_of_request {data : PfsRotateData}
    (h : parsePfsRotateRequest plaintext = some data) (r : Repl) (a : Bytes) (c : Contact) :
    r.dispatch E a c plaintext = r.handlePfsRotateRequest E a c plaintext := by
  have hopcode := parsePfsRotate_opcode h
  unfold dispatch
  rw [hopcode]

theorem dispatch_of_ack {data : PfsRotateData}
    (h : parsePfsRotateAck plaintext = some data) (r : Repl) (a : Bytes) (c : Contact) :
    r.dispatch E a c plaintext = r.handlePfsRotateAck E a c plaintext := by
  have hopcode := parsePfsRotate_opcode h
  unfold dispatch
  rw [hopcode]

end Repl

/-- **The parsers accept exactly what the builders produce**, at most one of them accepts a
plaintext, and `ExtractOpcode` tells which: the dispatch hands the plaintext to the handler
of the parser that accepts it. -/
theorem formats_exact (x : Bytes) :
    (∀ text, parseTextMessage x = some text ↔ x = buildTextMessage text) ∧
    (∀ e sig, parsePfsRotateRequest x = some ⟨e, sig⟩ ↔ x = buildPfsRotateRequest e sig) ∧
    (∀ e sig, parsePfsRotateAck x = some ⟨e, sig⟩ ↔ x = buildPfsRotateAck e sig) ∧
    (∀ o o', ParserAccepts x o → ParserAccepts x o' → o = o') ∧
    (∀ o, ParserAccepts x o → extractOpcode x = some o) ∧
    (∀ (E : Setup) (r : Repl) (a : Bytes) (c : Contact),
      (∀ text, parseTextMessage x = some text → r.dispatch E a c x =
        if c.initialPfsComplete then (r.handleTextMessage E a c x text, c)
        else (r.print .textBeforeHandshake, c)) ∧
      (∀ data, parsePfsRotateRequest x = some data →
        r.dispatch E a c x = r.handlePfsRotateRequest E a c x) ∧
      (∀ data, parsePfsRotateAck x = some data →
        r.dispatch E a c x = r.handlePfsRotateAck E a c x)) := by
  refine ⟨?_, ?_, ?_, ?_, ?_, ?_⟩
  · intro text
    exact parseTextMessage_eq_some_iff
  · intro e sig
    exact parsePfsRotate_eq_some_iff
  · intro e sig
    exact parsePfsRotate_eq_some_iff
  · intro o o' ho ho'
    have hsame := ho.extractOpcode.symm.trans ho'.extractOpcode
    exact Option.some.inj hsame
  · intro o ho
    exact ho.extractOpcode
  · intro E r a c
    refine ⟨?_, ?_, ?_⟩
    · intro text htext
      exact Repl.dispatch_of_text htext r a c
    · intro data hdata
      exact Repl.dispatch_of_request hdata r a c
    · intro data hdata
      exact Repl.dispatch_of_ack hdata r a c

/-- The text of two letters is read as a text and as nothing else. -/
theorem formats_exact_text :
    parseTextMessage [0x01, 0x68, 0x69] = some [0x68, 0x69] ∧
      extractOpcode [0x01, 0x68, 0x69] = some .textMessage := by
  have h := formats_exact [0x01, 0x68, 0x69]
  have htext : parseTextMessage [0x01, 0x68, 0x69] = some [0x68, 0x69] := (h.1 _).mpr rfl
  refine ⟨htext, h.2.2.2.2.1 .textMessage ?_⟩
  show parseTextMessage [0x01, 0x68, 0x69] ≠ none
  rw [htext]
  exact Option.some_ne_none _

end BlankChat.Cli
