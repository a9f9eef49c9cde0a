import JackStack.Token.Scan
import JackStack.Vm.Sink

/-!
# Token/Listing — the tokens of a source as markup

One element per token, on a line of its own, inside an element `tokens`. The element is named for
the class of the token and holds its text between single blanks, with the four characters that
markup reserves written as entities.
-/

namespace JackStack.Listing

/-- **A character in markup.** -/
def escape : Char → List Char
  | '<' => ['&', 'l', 't', ';']
  | '>' => ['&', 'g', 't', ';']
  | '&' => ['&', 'a', 'm', 'p', ';']
  | '"' => ['&', 'q', 'u', 'o', 't', ';']
  | c => [c]

/-- **A text in markup.** -/
def escapeText (s : String) : String :=
  String.ofList (s.toList.flatMap escape)

/-- **The line of a terminal.** -/
def line (t : Terminal) : String :=
  "<" ++ t.category ++ "> " ++ escapeText t.spelling ++ " </" ++ t.category ++ ">\n"

/-- The lines before and behind the tokens. -/
def opening : String := "<tokens>\n"

def closing : String := "</tokens>\n"

/-- Writes a text, with a fault of the sink as a compile error. -/
def put (sink : Sink) (text : String) : Except CompileError Unit × Sink :=
  match sink.write text with
  | (.ok (), sink) => (.ok (), sink)
  | (.error fault, sink) => (.error (.file fault), sink)

/-- **Writes the tokens of a sequence**, up to its first error, and the closing line. -/
def writeItems : List (Except CompileError Token) → Sink → Except CompileError Unit × Sink
  | [], sink => put sink closing
  | .error e :: _, sink => (.error e, sink)
  | .ok token :: rest, sink =>
    match put sink (line token.terminal) with
    | (.ok (), sink) => writeItems rest sink
    | (.error e, sink) => (.error e, sink)

/-- **Writes the listing** of a token sequence. -/
def write (items : List (Except CompileError Token)) (sink : Sink) :
    Except CompileError Unit × Sink :=
  match put sink opening with
  | (.ok (), sink) => writeItems items sink
  | (.error e, sink) => (.error e, sink)

end JackStack.Listing
