import OpenAgentd.Lib.LineBuffer
import OpenAgentd.Web.Mentions

/-!
# The event stream in the browser

`web/src/api/sse.ts`: the reader takes the texts that the decoder gives for the bytes of each read, cuts them into lines
and calls back with an event at each empty line. It knows nothing of how the server's frames were cut on the way.

A frame is an `event:` line, a `data:` line and an empty line, and between the frames the server may send comments. A
stream that breaks off anywhere gives the events of the frames that came whole, in order; of the frame that it broke in
there is either nothing, its event or one parse error, and never another event (`readSSE_received`).
-/

namespace OpenAgentd.Web
open OpenAgentd.Lib

universe u
variable {J : Type u}

/-- `SSECallbacks`. -/
inductive SseCall (J : Type u) where
  | onEvent (type : List Char) (data : J)
  | onError (err : List Char)
  | onParseError (err : List Char)
  | onDone
  deriving DecidableEq

/-- How the reads come to an end. -/
inductive ReadEnd where
  | done
  | failed (err : List Char)
  | aborted

/-- The event that is being read. -/
structure EventFields where
  currentEvent : List Char
  currentData : List Char

/-- What the reader keeps between two reads. -/
structure SseReader where
  buf : List Char
  fields : EventFields

/-- `JSON.parse`, and the text under the key `type` of an object. -/
structure JsonText (J : Type u) where
  parse : List Char → Option J
  typeOf : J → Option (List Char)

section
variable (json : JsonText J)

def dispatchEvent (f : EventFields) : EventFields × List (SseCall J) :=
  if f.currentData = [] then (f, [])
  else
    match json.parse f.currentData with
    | none => (⟨[], []⟩, [.onParseError ("SSE parse error: ".toList ++ f.currentData)])
    | some parsed =>
      let embeddedType := (json.typeOf parsed).getD "unknown".toList
      (⟨[], []⟩, [.onEvent (if f.currentEvent = [] then embeddedType else f.currentEvent) parsed])

def processLine (f : EventFields) (line : List Char) : EventFields × List (SseCall J) :=
  if line = [] then dispatchEvent json f
  else if "event:".toList.isPrefixOf line then ({ f with currentEvent := trim isSpace (line.drop 6) }, [])
  else if "data:".toList.isPrefixOf line then
    let chunk := trim isSpace (line.drop 5)
    ({ f with currentData := if f.currentData = [] then chunk else f.currentData ++ ['\n'] ++ chunk }, [])
  else (f, [])

def processLines : EventFields → List (List Char) → EventFields × List (SseCall J)
  | f, [] => (f, [])
  | f, raw :: lines =>
    let first := processLine json f (trimEnd isSpace raw)
    let later := processLines first.1 lines
    (later.1, first.2 ++ later.2)

/-- One read. -/
def readValue (r : SseReader) (value : List Char) : SseReader × List (SseCall J) :=
  let lines := (r.buf ++ value).splitOn '\n'
  let processed := processLines json r.fields lines.dropLast
  (⟨lines.getLastD [], processed.1⟩, processed.2)

/-- The reads are over: only a stream that closes is flushed. -/
def finish (r : SseReader) : ReadEnd → List (SseCall J)
  | .done =>
    let remaining := trim isSpace r.buf
    let processed := if remaining = [] then (r.fields, []) else processLine json r.fields remaining
    processed.2 ++ (dispatchEvent json processed.1).2 ++ [.onDone]
  | .failed err => [.onError err]
  | .aborted => []

def pump (r : SseReader) : List (List Char) → ReadEnd → List (SseCall J)
  | [], ending => finish json r ending
  | value :: values, ending =>
    let read := readValue json r value
    read.2 ++ pump read.1 values ending

/-- The calls of a reader, for the body's reads and their end. -/
def readSSE : Option (List (List Char) × ReadEnd) → List (SseCall J)
  | none => [.onError "No response body".toList]
  | some body => pump json ⟨[], [], []⟩ body.1 body.2

/-- The calls for a text that comes in one piece. -/
def readText (f : EventFields) (text : List Char) (ending : ReadEnd) : List (SseCall J) :=
  let cut := cutLines '\n' text
  let processed := processLines json f cut.1
  processed.2 ++ finish json ⟨cut.2, processed.1⟩ ending

end

/-! ### Wherever the text is cut -/

section
variable {json : JsonText J} {f : EventFields} {l s : List Char} {ending : ReadEnd}

/-- Lines in a row. -/
lemma processLines_append (lines lines' : List (List Char)) :
    processLines json f (lines ++ lines') =
      ((processLines json (processLines json f lines).1 lines').1,
        (processLines json f lines).2 ++ (processLines json (processLines json f lines).1 lines').2) := by
  induction lines generalizing f with
  | nil => rfl
  | cons raw lines ih =>
    rw [List.cons_append, processLines, ih, processLines]
    simp only [List.append_assoc]

/-- The reader goes line by line. -/
lemma pump_eq_lines (r : SseReader) (values : List (List Char)) :
    pump json r values ending =
      (processLines json r.fields (linesOfChunks '\n' r.buf values).1).2 ++
        finish json ⟨(linesOfChunks '\n' r.buf values).2,
          (processLines json r.fields (linesOfChunks '\n' r.buf values).1).1⟩ ending := by
  induction values generalizing r with
  | nil => rfl
  | cons value values ih =>
    rw [pump, ih, linesOfChunks, processLines_append]
    simp only [List.append_assoc]
    rfl

/-- The calls do not depend on how the text was cut into reads. -/
lemma readSSE_eq_readText (values : List (List Char)) :
    readSSE json (some (values, ending)) = readText json ⟨[], []⟩ values.flatten ending := by
  rw [readSSE, pump_eq_lines, linesOfChunks_eq List.not_mem_nil]
  rfl

/-- A full line. -/
lemma readText_line (clean : '\n' ∉ l) :
    readText json f (l ++ '\n' :: s) ending =
      (processLine json f (trimEnd isSpace l)).2 ++
        readText json (processLine json f (trimEnd isSpace l)).1 s ending := by
  rw [readText, cutLines_line clean]
  simp only [processLines, List.append_assoc]
  rfl

/-- An open line. -/
lemma readText_open (clean : '\n' ∉ l) : readText json f l ending = finish json ⟨l, f⟩ ending := by
  rw [readText, cutLines_open clean]
  rfl

end

/-! ### What the server sends -/

/-- An event of the server: its name and its object, each on one line. No start of an object's text is itself JSON. -/
structure Frame (json : JsonText J) where
  type : List Char
  text : List Char
  data : J
  named : type ≠ []
  typeLine : '\n' ∉ type
  typeTrimmed : Trimmed isSpace type
  filled : text ≠ []
  textLine : '\n' ∉ text
  textTrimmed : Trimmed isSpace text
  parses : json.parse text = some data
  whole : ∀ t, t <+: text → t ≠ text → json.parse t = none

/-- What stands in the stream. -/
inductive SseItem (json : JsonText J) where
  | frame (sent : Frame json)
  | ping (comment : List Char) (line : '\n' ∉ comment)

section
variable {json : JsonText J}

def SseItem.lines : SseItem json → List (List Char)
  | .frame sent => ["event: ".toList ++ sent.type, "data: ".toList ++ sent.text, []]
  | .ping comment _ => [": ".toList ++ comment, []]

def SseItem.wire (crlf : Bool) (item : SseItem json) : List Char :=
  item.lines.flatMap fun l => l ++ carriage crlf ++ ['\n']

/-- The calls of an item that came whole. -/
def SseItem.calls : SseItem json → List (SseCall J)
  | .frame sent => [.onEvent sent.type sent.data]
  | .ping _ _ => []

def wire (crlf : Bool) (items : List (SseItem json)) : List Char := items.flatMap (SseItem.wire crlf)

/-- What may come of a frame that the stream broke off in. -/
inductive Flushed : List (SseItem json) → List (SseCall J) → Prop where
  | nothing (rest : List (SseItem json)) : Flushed rest []
  | event (item : SseItem json) (rest : List (SseItem json)) : Flushed (item :: rest) item.calls
  | error (frame : Frame json) (rest : List (SseItem json)) (t : List Char) (part : t <+: frame.text)
    (cut : t ≠ frame.text) : Flushed (.frame frame :: rest) [.onParseError ("SSE parse error: ".toList ++ t)]

/-- The calls at the end of the stream, when `rest` had not come whole. -/
inductive Ended (rest : List (SseItem json)) : ReadEnd → List (SseCall J) → Prop where
  | done (calls : List (SseCall J)) (flushed : Flushed rest calls) : Ended rest .done (calls ++ [.onDone])
  | failed (err : List Char) : Ended rest (.failed err) [.onError err]
  | aborted : Ended rest .aborted []

variable {crlf : Bool} {f : EventFields} {l p s : List Char} {ending : ReadEnd} {items : List (SseItem json)}
  {frame : Frame json}

/-- A CR is white space. -/
lemma carriage_white (crlf : Bool) : ∀ c ∈ carriage crlf, isSpace c = true := by
  intro c mem
  rw [mem_carriage mem]
  rfl

/-- A CR is no LF. -/
lemma carriage_clean (crlf : Bool) (clean : '\n' ∉ l) : '\n' ∉ l ++ carriage crlf := by
  rw [List.mem_append, not_or]
  refine ⟨clean, ?_⟩
  cases crlf <;> decide

/-- A text that starts a line and what follows stops inside the line or goes on behind its line feed. -/
lemma prefix_line_cases {r : List Char} (h : r <+: l ++ carriage crlf ++ '\n' :: s) :
    r <+: l ++ carriage crlf ∨ ∃ r', r = l ++ carriage crlf ++ '\n' :: r' ∧ r' <+: s := by
  cases prefix_append_cases h with
  | inl inside => exact .inl inside
  | inr behind =>
    obtain ⟨r', e, sub⟩ := behind
    cases r' with
    | nil =>
      rw [e, List.append_nil]
      exact .inl List.prefix_rfl
    | cons c r' =>
      rw [List.cons_prefix_cons] at sub
      obtain ⟨first, sub⟩ := sub
      subst first
      exact .inr ⟨r', e, sub⟩

/-- A line of the server, with its line end. -/
lemma readText_wire_line (clean : '\n' ∉ l) :
    readText json f (l ++ carriage crlf ++ '\n' :: s) ending =
      (processLine json f (trimEnd isSpace l)).2 ++
        readText json (processLine json f (trimEnd isSpace l)).1 s ending := by
  rw [readText_line (carriage_clean crlf clean), trimEnd_append (carriage_white crlf)]

/-- What the flush reads of a line that broke off. -/
lemma trim_part {c : Char} (start : isSpace c = false) (part : p <+: c :: l ++ carriage crlf) :
    trim isSpace p <+: c :: l ∧ Trimmed isSpace (trim isSpace p) := by
  have starts : ∀ d, p.head? = some d → isSpace d = false := by
    intro d head
    cases p with
    | nil => cases head
    | cons e p =>
      obtain ⟨same, _⟩ := List.cons_prefix_cons.mp part
      cases head
      rw [same, start]
  have e : trim isSpace p = trimEnd isSpace p := by rw [trim, dropWhile_eq_self starts]
  rw [e]
  refine ⟨?_, trimEnd_trimmed starts⟩
  cases prefix_append_cases part with
  | inl inside => exact (trimEnd_start isSpace p).trans inside
  | inr behind =>
    obtain ⟨w, e, white⟩ := behind
    rw [e, trimEnd_append fun d mem => carriage_white crlf d (white.subset mem)]
    exact trimEnd_start isSpace _

/-! ### One line -/

/-- The line is of another kind. -/
lemma processLine_other (filled : l ≠ []) (event : ¬ "event:".toList <+: l) (data : ¬ "data:".toList <+: l) :
    processLine json f l = (f, []) := by
  rw [processLine, if_neg filled, if_neg (by rw [List.isPrefixOf_iff_prefix]; exact event),
    if_neg (by rw [List.isPrefixOf_iff_prefix]; exact data)]

/-- A line with the type. -/
lemma processLine_event (event : "event:".toList <+: l) :
    processLine json f l = ({ f with currentEvent := trim isSpace (l.drop 6) }, []) := by
  have filled : l ≠ [] := by
    intro e
    rw [e, List.prefix_nil] at event
    cases event
  rw [processLine, if_neg filled, if_pos (List.isPrefixOf_iff_prefix.mpr event)]

/-- A line with data. -/
lemma processLine_data (empty : f.currentData = []) (data : "data:".toList <+: l) :
    processLine json f l = ({ f with currentData := trim isSpace (l.drop 5) }, []) := by
  obtain ⟨t, e⟩ := data
  subst e
  rw [processLine, if_neg (by simp), if_neg (by simp [List.isPrefixOf]), if_pos (by simp [List.isPrefixOf])]
  simp only [if_pos empty]

/-- An empty line. -/
lemma processLine_empty : processLine json f [] = dispatchEvent json f := rfl

/-- No data, no event. -/
lemma dispatchEvent_empty (empty : f.currentData = []) : dispatchEvent json f = (f, []) := if_pos empty

/-- The line that names the event. -/
lemma processLine_type (frame : Frame json) :
    processLine json f ("event: ".toList ++ frame.type) = ({ f with currentEvent := frame.type }, []) := by
  have event : "event:".toList <+: "event: ".toList ++ frame.type := ⟨' ' :: frame.type, rfl⟩
  have space : trim isSpace (' ' :: frame.type) = trim isSpace frame.type := by
    rw [trim, List.dropWhile_cons_of_pos (by decide), ← trim]
  have cut : ("event: ".toList ++ frame.type).drop 6 = ' ' :: frame.type := rfl
  rw [processLine_event event, cut, space, frame.typeTrimmed.trim]

/-- A trimmed start of the data line gives a start of the text, or nothing. -/
lemma processLine_part (empty : f.currentData = []) (filled : l ≠ []) (trimmed : Trimmed isSpace l)
    (part : l <+: "data: ".toList ++ frame.text) :
    ∃ t, t <+: frame.text ∧ processLine json f l = ({ f with currentData := t }, []) ∧
      (l = "data: ".toList ++ frame.text → t = frame.text) := by
  by_cases data : "data:".toList <+: l
  · obtain ⟨r, e⟩ := data
    have rest : r <+: ' ' :: frame.text := by
      rw [← e] at part
      exact (List.prefix_append_right_inj "data:".toList).mp part
    have cut : l.drop 5 = r := by
      rw [← e]
      rfl
    rw [processLine_data empty ⟨r, e⟩, cut]
    cases r with
    | nil =>
      refine ⟨[], List.nil_prefix, rfl, ?_⟩
      intro whole
      rw [← e] at whole
      cases whole
    | cons c t =>
      obtain ⟨space, sub⟩ := List.cons_prefix_cons.mp rest
      subst space
      have inner : Trimmed isSpace t := by
        refine ⟨?_, ?_⟩
        · intro c head
          apply frame.textTrimmed.first c
          obtain ⟨u, e⟩ := sub
          rw [← e]
          cases t with
          | nil => cases head
          | cons d t => exact head
        · intro c last
          apply trimmed.last c
          rw [← e, List.getLast?_append, List.getLast?_cons, last]
          rfl
      have space : trim isSpace (' ' :: t) = t := by
        rw [trim, List.dropWhile_cons_of_pos (by decide), ← trim, inner.trim]
      rw [space]
      refine ⟨t, sub, rfl, ?_⟩
      intro whole
      rw [← e] at whole
      cases whole
      rfl
  · refine ⟨[], List.nil_prefix, ?_, ?_⟩
    · have event : ¬ "event:".toList <+: l := by
        intro event
        cases l with
        | nil => exact filled rfl
        | cons c l =>
          have here := (List.cons_prefix_cons.mp part).1
          have there := (List.cons_prefix_cons.mp event).1
          rw [here] at there
          cases there
      rw [processLine_other filled event data, ← empty]
    · intro whole
      refine absurd ?_ data
      rw [whole]
      exact ⟨' ' :: frame.text, rfl⟩

/-- A comment, or what is left of it. -/
lemma processLine_comment (empty : f.currentData = []) (part : l <+: ':' :: s) : processLine json f l = (f, []) := by
  cases l with
  | nil => rw [processLine_empty, dispatchEvent_empty empty]
  | cons c l =>
    have colon := (List.cons_prefix_cons.mp part).1
    subst colon
    apply processLine_other (List.cons_ne_nil _ _)
    · intro event
      cases (List.cons_prefix_cons.mp event).1
    · intro data
      cases (List.cons_prefix_cons.mp data).1

/-- Trimmed text at the end. -/
lemma trimEnd_behind (front : List Char) (filled : l ≠ []) (trimmed : Trimmed isSpace l) :
    trimEnd isSpace (front ++ l) = front ++ l := by
  apply trimEnd_eq_self
  intro c last
  apply trimmed.last c
  rw [List.getLast?_append, List.getLast?_eq_some_getLast filled] at last
  rw [List.getLast?_eq_some_getLast filled]
  exact last

/-! ### The end of the stream -/

/-- The calls of the flush. -/
def flushCalls (json : JsonText J) (r : SseReader) : List (SseCall J) :=
  let remaining := trim isSpace r.buf
  let processed := if remaining = [] then (r.fields, []) else processLine json r.fields remaining
  processed.2 ++ (dispatchEvent json processed.1).2

/-- How the stream ends. -/
lemma ended_finish {r : SseReader} (flushed : Flushed items (flushCalls json r)) :
    Ended items ending (finish json r ending) := by
  cases ending with
  | done => exact .done _ flushed
  | failed err => exact .failed err
  | aborted => exact .aborted

/-- Nothing is left over. -/
lemma flushCalls_nil {r : SseReader} (rest : trim isSpace r.buf = []) :
    flushCalls json r = (dispatchEvent json r.fields).2 := by
  simp only [flushCalls, if_pos rest, List.nil_append]

/-- A line is left over. -/
lemma flushCalls_line {r : SseReader} {f' : EventFields} (rest : trim isSpace r.buf ≠ [])
    (line : processLine json r.fields (trim isSpace r.buf) = (f', [])) :
    flushCalls json r = (dispatchEvent json f').2 := by
  simp only [flushCalls, if_neg rest, line, List.nil_append]

/-- Nothing comes of a rest that is no data. -/
lemma flushCalls_quiet {r : SseReader} (empty : r.fields.currentData = [])
    (line : trim isSpace r.buf ≠ [] →
      ∃ f', f'.currentData = [] ∧ processLine json r.fields (trim isSpace r.buf) = (f', [])) :
    flushCalls json r = [] := by
  by_cases rest : trim isSpace r.buf = []
  · rw [flushCalls_nil rest, dispatchEvent_empty empty]
  · obtain ⟨f', empty', e⟩ := line rest
    rw [flushCalls_line rest e, dispatchEvent_empty empty']

/-- The event of a frame that has its two lines. -/
lemma dispatchEvent_frame (frame : Frame json) :
    dispatchEvent json ⟨frame.type, frame.text⟩ = (⟨[], []⟩, [.onEvent frame.type frame.data]) := by
  rw [dispatchEvent, if_neg frame.filled]
  simp only [frame.parses, if_neg frame.named]

/-- A start of the data gives nothing, the event or an error. -/
lemma flushed_part (rest : List (SseItem json)) {t : List Char} (part : t <+: frame.text) :
    Flushed (.frame frame :: rest) (dispatchEvent json ⟨frame.type, t⟩).2 := by
  by_cases empty : t = []
  · subst empty
    exact .nothing _
  · by_cases all : t = frame.text
    · rw [all, dispatchEvent_frame]
      exact .event (.frame frame) rest
    · rw [dispatchEvent, if_neg empty]
      simp only [frame.whole t part all]
      exact .error frame rest t part all

/-- The line broke off that names the event. -/
lemma flushCalls_type (part : p <+: "event: ".toList ++ frame.type ++ carriage crlf) :
    flushCalls json ⟨p, ⟨[], []⟩⟩ = [] := by
  apply flushCalls_quiet rfl
  intro filled
  have sub := (trim_part (by decide) part).1
  by_cases event : "event:".toList <+: trim isSpace p
  · exact ⟨_, rfl, processLine_event event⟩
  · refine ⟨_, rfl, processLine_other filled event ?_⟩
    intro data
    have here := data.trans sub
    cases (List.cons_prefix_cons.mp here).1

/-- The line broke off that holds the data. -/
lemma flushed_data (rest : List (SseItem json)) (part : p <+: "data: ".toList ++ frame.text ++ carriage crlf) :
    Flushed (.frame frame :: rest) (flushCalls json ⟨p, ⟨frame.type, []⟩⟩) := by
  obtain ⟨sub, trimmed⟩ := trim_part (by decide) part
  by_cases filled : trim isSpace p = []
  · rw [flushCalls_nil filled, dispatchEvent_empty rfl]
    exact .nothing _
  · obtain ⟨t, start, line, _⟩ := processLine_part (f := ⟨frame.type, []⟩) rfl filled trimmed sub
    rw [flushCalls_line filled line]
    exact flushed_part rest start

/-- The line end broke off. -/
lemma flushCalls_carriage (part : p <+: [] ++ carriage crlf) : flushCalls json ⟨p, f⟩ = (dispatchEvent json f).2 := by
  apply flushCalls_nil
  have white : ∀ c ∈ p, isSpace c = true := fun c mem => carriage_white crlf c (part.subset mem)
  rw [trim, List.dropWhile_eq_nil_iff.mpr white]
  rfl

/-! ### One item -/

/-- A frame on the wire. -/
lemma wire_frame (crlf : Bool) (frame : Frame json) (s : List Char) :
    (SseItem.frame frame).wire crlf ++ s =
      "event: ".toList ++ frame.type ++ carriage crlf ++ '\n' ::
        ("data: ".toList ++ frame.text ++ carriage crlf ++ '\n' :: ([] ++ carriage crlf ++ '\n' :: s)) := by
  simp [SseItem.wire, SseItem.lines]

/-- A ping on the wire. -/
lemma wire_ping (json : JsonText J) (crlf : Bool) (comment : List Char) (line : '\n' ∉ comment) (s : List Char) :
    (SseItem.ping comment line : SseItem json).wire crlf ++ s =
      ": ".toList ++ comment ++ carriage crlf ++ '\n' :: ([] ++ carriage crlf ++ '\n' :: s) := by
  simp [SseItem.wire, SseItem.lines]

/-- A frame's lines have no LF. -/
lemma frame_clean (frame : Frame json) :
    '\n' ∉ "event: ".toList ++ frame.type ∧ '\n' ∉ "data: ".toList ++ frame.text := by
  rw [List.mem_append, List.mem_append, not_or, not_or]
  exact ⟨⟨by decide, frame.typeLine⟩, by decide, frame.textLine⟩

/-- The type is read. -/
lemma readText_type (frame : Frame json) (s : List Char) :
    readText json ⟨[], []⟩ ("event: ".toList ++ frame.type ++ carriage crlf ++ '\n' :: s) ending =
      readText json ⟨frame.type, []⟩ s ending := by
  rw [readText_wire_line (frame_clean frame).1, trimEnd_behind _ frame.named frame.typeTrimmed, processLine_type]
  rfl

/-- The data is read. -/
lemma readText_data (frame : Frame json) (s : List Char) :
    readText json ⟨frame.type, []⟩ ("data: ".toList ++ frame.text ++ carriage crlf ++ '\n' :: s) ending =
      readText json ⟨frame.type, frame.text⟩ s ending := by
  have trimmed := trimEnd_behind "data: ".toList frame.filled frame.textTrimmed
  have line : Trimmed isSpace ("data: ".toList ++ frame.text) := by
    refine ⟨?_, ?_⟩
    · intro c first
      cases first
      decide
    · rw [← trimmed]
      exact trimEnd_last _
  have filled : "data: ".toList ++ frame.text ≠ [] := by simp
  obtain ⟨t, _, read, all⟩ := processLine_part (f := ⟨frame.type, []⟩) rfl filled line (List.prefix_refl _)
  rw [readText_wire_line (frame_clean frame).2, trimmed, read, all rfl]
  rfl

/-- A blank line. -/
lemma readText_blank (s : List Char) :
    readText json f ([] ++ carriage crlf ++ '\n' :: s) ending =
      (dispatchEvent json f).2 ++ readText json (dispatchEvent json f).1 s ending := by
  rw [readText_wire_line List.not_mem_nil]
  rfl

/-- A ping has no LF. -/
lemma ping_clean {comment : List Char} (line : '\n' ∉ comment) : '\n' ∉ ": ".toList ++ comment := by
  rw [List.mem_append, not_or]
  exact ⟨by decide, line⟩

/-- A comment is passed over. -/
lemma readText_comment {comment : List Char} (line : '\n' ∉ comment) (s : List Char) :
    readText json ⟨[], []⟩ (": ".toList ++ comment ++ carriage crlf ++ '\n' :: s) ending =
      readText json ⟨[], []⟩ s ending := by
  have ignored : processLine json ⟨[], []⟩ (trimEnd isSpace (": ".toList ++ comment)) = (⟨[], []⟩, []) :=
    processLine_comment rfl (trimEnd_start isSpace _)
  rw [readText_wire_line (ping_clean line), ignored]
  rfl

/-- An item that came whole makes its calls and leaves nothing behind. -/
lemma readText_item (item : SseItem json) (s : List Char) :
    readText json ⟨[], []⟩ (item.wire crlf ++ s) ending = item.calls ++ readText json ⟨[], []⟩ s ending := by
  cases item with
  | frame frame =>
    rw [wire_frame, readText_type, readText_data, readText_blank, dispatchEvent_frame]
    rfl
  | ping comment line =>
    rw [wire_ping, readText_comment line, readText_blank, dispatchEvent_empty rfl]
    rfl

/-- A part has no LF. -/
lemma not_mem_of_part (clean : '\n' ∉ l) (part : p <+: l ++ carriage crlf) : '\n' ∉ p :=
  fun mem => carriage_clean crlf clean (part.subset mem)

/-- The stream broke off in an item. -/
lemma ended_broken {item : SseItem json} {text : List Char} (rest : List (SseItem json)) (part : text <+: item.wire crlf)
    (broken : text ≠ item.wire crlf) : Ended (item :: rest) ending (readText json ⟨[], []⟩ text ending) := by
  cases item with
  | frame frame =>
    have whole := wire_frame crlf frame []
    rw [List.append_nil] at whole
    rw [whole] at part broken
    cases prefix_line_cases part with
    | inl inType =>
      rw [readText_open (not_mem_of_part (frame_clean frame).1 inType)]
      apply ended_finish
      rw [flushCalls_type inType]
      exact .nothing _
    | inr behindType =>
      obtain ⟨r, e, inside⟩ := behindType
      subst e
      rw [readText_type]
      cases prefix_line_cases inside with
      | inl inData =>
        rw [readText_open (not_mem_of_part (frame_clean frame).2 inData)]
        exact ended_finish (flushed_data rest inData)
      | inr behindData =>
        obtain ⟨r, e, inBlank⟩ := behindData
        subst e
        rw [readText_data]
        cases prefix_line_cases inBlank with
        | inl inCarriage =>
          rw [readText_open (not_mem_of_part List.not_mem_nil inCarriage)]
          apply ended_finish
          rw [flushCalls_carriage inCarriage]
          exact flushed_part rest List.prefix_rfl
        | inr behindBlank =>
          obtain ⟨r, e, nothing⟩ := behindBlank
          rw [List.prefix_nil] at nothing
          subst nothing
          subst e
          exact absurd rfl broken
  | ping comment line =>
    have whole := wire_ping json crlf comment line []
    rw [List.append_nil] at whole
    rw [whole] at part broken
    cases prefix_line_cases part with
    | inl inComment =>
      rw [readText_open (not_mem_of_part (ping_clean line) inComment)]
      apply ended_finish
      have quiet : flushCalls json ⟨text, ⟨[], []⟩⟩ = [] :=
        flushCalls_quiet rfl fun _ => ⟨_, rfl, processLine_comment rfl (trim_part (by decide) inComment).1⟩
      rw [quiet]
      exact .nothing _
    | inr behindComment =>
      obtain ⟨r, e, inside⟩ := behindComment
      subst e
      rw [readText_comment line]
      cases prefix_line_cases inside with
      | inl inBlank =>
        rw [readText_open (not_mem_of_part List.not_mem_nil inBlank)]
        apply ended_finish
        rw [flushCalls_carriage inBlank]
        exact .nothing _
      | inr behindBlank =>
        obtain ⟨r, e, nothing⟩ := behindBlank
        rw [List.prefix_nil] at nothing
        subst nothing
        subst e
        exact absurd rfl broken

/-! ### The whole stream -/

/-- The calls are those of the items that came whole, and what comes of the end. -/
lemma readText_received {text : List Char} (received : text <+: wire crlf items) :
    ∃ n calls, readText json ⟨[], []⟩ text ending = (items.take n).flatMap SseItem.calls ++ calls ∧
      Ended (items.drop n) ending calls ∧ ∀ m ≤ items.length, wire crlf (items.take m) <+: text → m ≤ n := by
  induction items generalizing text with
  | nil =>
    rw [wire, List.flatMap_nil, List.prefix_nil] at received
    subst received
    refine ⟨0, finish json ⟨[], ⟨[], []⟩⟩ ending, ?_, ended_finish (.nothing _), fun m short _ => short⟩
    exact readText_open List.not_mem_nil
  | cons item items ih =>
    by_cases whole : item.wire crlf <+: text
    · obtain ⟨later, e⟩ := whole
      subst e
      have received : later <+: wire crlf items := (List.prefix_append_right_inj (item.wire crlf)).mp received
      obtain ⟨n, calls, e, ended, most⟩ := ih received
      refine ⟨n + 1, calls, ?_, ended, ?_⟩
      · rw [readText_item, e, List.take_succ_cons, List.flatMap_cons, List.append_assoc]
      · intro m short came
        cases m with
        | zero => exact Nat.zero_le _
        | succ m =>
          have came : wire crlf (items.take m) <+: later := (List.prefix_append_right_inj (item.wire crlf)).mp came
          exact Nat.succ_le_succ (most m (Nat.le_of_succ_le_succ short) came)
    · have part : text <+: item.wire crlf := by
        cases prefix_append_cases received with
        | inl inside => exact inside
        | inr behind =>
          obtain ⟨r, e, _⟩ := behind
          exact absurd ⟨r, e.symm⟩ whole
      refine ⟨0, _, rfl, ended_broken items part fun e => whole (e ▸ List.prefix_rfl), ?_⟩
      intro m _ came
      cases m with
      | zero => exact Nat.le_refl 0
      | succ m => exact absurd ((List.prefix_append _ _).trans came) whole

/-- What the reader calls back with, however the stream was cut into reads and wherever it broke off: the events of the
items that came whole, all of them and in order, and what comes of the end. -/
theorem readSSE_received {reads : List (List Char)} (received : reads.flatten <+: wire crlf items) :
    ∃ n calls, readSSE json (some (reads, ending)) = (items.take n).flatMap SseItem.calls ++ calls ∧
      Ended (items.drop n) ending calls ∧
      ∀ m ≤ items.length, wire crlf (items.take m) <+: reads.flatten → m ≤ n := by
  rw [readSSE_eq_readText]
  exact readText_received received

/-- A parser that knows one object. -/
def oneObject : JsonText Unit := ⟨fun s => if s = "{}".toList then some () else none, fun _ => none⟩

/-- The event `done`. -/
def doneFrame : Frame oneObject where
  type := "done".toList
  text := "{}".toList
  data := ()
  named := by decide
  typeLine := by decide
  typeTrimmed := ⟨fun c h => by cases h; decide, fun c h => by cases h; decide⟩
  filled := by decide
  textLine := by decide
  textTrimmed := ⟨fun c h => by cases h; decide, fun c h => by cases h; decide⟩
  parses := rfl
  whole := fun _ _ other => if_neg other

/-- A stream that breaks off in its second frame. -/
theorem readSSE_received_break :
    ∃ n calls, readSSE oneObject (some (["event: done\r\nda".toList, "ta: {}\r\n\r\nevent".toList], .done)) =
        ([.frame doneFrame, .frame doneFrame].take n).flatMap SseItem.calls ++ calls ∧
      Ended ([SseItem.frame doneFrame, .frame doneFrame].drop n) .done calls ∧
      ∀ m ≤ 2, wire true ([SseItem.frame doneFrame, .frame doneFrame].take m) <+:
        ["event: done\r\nda".toList, "ta: {}\r\n\r\nevent".toList].flatten → m ≤ n :=
  readSSE_received (by decide : _ <+: wire true [SseItem.frame doneFrame, .frame doneFrame])

end

end OpenAgentd.Web
