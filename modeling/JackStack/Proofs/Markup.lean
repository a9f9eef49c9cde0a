import JackStack.Compile
import JackStack.Proofs.Lexemes
import JackStack.Proofs.Loading

/-!
# Proofs/Markup — a listing can be read back

A listing keeps the class and the text of each token. What is reserved in markup stands in a text
only as an entity, so an element ends where its closing tag starts; and no token has a line feed in
it, so each line of the listing is one element.

* `Listing.read` — the classes and texts in a listing.
* `Listing.write_eq_ok`, `Listing.write_eq_error` — what is written, up to the first bad piece.
* `listTokens_lossless` — a listing is read back, and one with an error breaks off in front of it.
-/

namespace JackStack

open Lookahead (terminalsOf)

namespace Listing

/-! ## Reading -/

/-- **A text in markup**, with its entities read. -/
def unescape : List Char → List Char
  | '&' :: 'l' :: 't' :: ';' :: cs => '<' :: unescape cs
  | '&' :: 'g' :: 't' :: ';' :: cs => '>' :: unescape cs
  | '&' :: 'a' :: 'm' :: 'p' :: ';' :: cs => '&' :: unescape cs
  | '&' :: 'q' :: 'u' :: 'o' :: 't' :: ';' :: cs => '"' :: unescape cs
  | c :: cs => c :: unescape cs
  | [] => []

/-- **The class and the text of an element**, which takes a line. -/
def readElement (line : List Char) : String × String :=
  let tag := (line.drop 1).takeWhile (· ≠ '>')
  let body := (line.drop (tag.length + 3)).takeWhile (· ≠ '<')
  (String.ofList tag, String.ofList (unescape body.dropLast))

/-- The line closes what another one has opened. -/
def closes : List Char → Bool
  | _ :: '/' :: _ => true
  | _ => false

/-- **The classes and texts in a listing**, between its first line and the one that closes it. -/
def read (text : String) : List (String × String) :=
  ((Text.lines text.toList).tail.takeWhile (!closes ·)).map readElement

theorem unescape_cons {c : Char} (h : c ≠ '&') (cs : List Char) :
    unescape (c :: cs) = c :: unescape cs := by
  rw [unescape] <;> simp [h]

/-- A character is read back, whatever follows. -/
theorem unescape_escape (c : Char) (cs : List Char) :
    unescape (escape c ++ cs) = c :: unescape cs := by
  unfold escape
  split
  · rfl
  · rfl
  · rfl
  · rfl
  · next h _ => exact unescape_cons h cs

theorem unescape_flatMap_escape (cs : List Char) : unescape (cs.flatMap escape) = cs := by
  induction cs with
  | nil => rfl
  | cons c cs ih => rw [List.flatMap_cons, unescape_escape, ih]

/-- In markup a character is itself, or an entity. -/
theorem escape_cases (c : Char) :
    escape c = [c] ∧ c ≠ '<' ∨ ∀ d ∈ escape c, d ≠ '<' ∧ d ≠ '\n' := by
  have hentity : ∀ cs : List Char, cs.all (fun d => decide (d ≠ '<' ∧ d ≠ '\n')) = true →
      ∀ d ∈ cs, d ≠ '<' ∧ d ≠ '\n' := fun cs h d hd => of_decide_eq_true (List.all_eq_true.1 h d hd)
  unfold escape
  split
  · exact .inr (hentity _ (by decide))
  · exact .inr (hentity _ (by decide))
  · exact .inr (hentity _ (by decide))
  · exact .inr (hentity _ (by decide))
  · next h _ _ _ => exact .inl ⟨rfl, h⟩

theorem ne_of_mem_escape {cs : List Char} {d : Char} (h : d ∈ cs.flatMap escape) : d ≠ '<' := by
  obtain ⟨c, -, hd⟩ := List.mem_flatMap.1 h
  rcases escape_cases c with ⟨hc, hne⟩ | hc
  · rw [hc, List.mem_singleton] at hd
    exact hd ▸ hne
  · exact (hc d hd).1

theorem lineFeed_notMem_escape {cs : List Char} (h : '\n' ∉ cs) : '\n' ∉ cs.flatMap escape := by
  intro hd
  obtain ⟨c, hmem, hd⟩ := List.mem_flatMap.1 hd
  rcases escape_cases c with ⟨hc, -⟩ | hc
  · rw [hc, List.mem_singleton] at hd
    exact h (hd ▸ hmem)
  · exact (hc _ hd).2 rfl

/-! ## Elements -/

/-- **The element of a terminal**, its line without the line feed. -/
def element (t : Terminal) : List Char :=
  '<' :: (t.category.toList ++ '>' :: ' ' :: (t.spelling.toList.flatMap escape ++
    ' ' :: '<' :: '/' :: (t.category.toList ++ ['>'])))

theorem toList_line (t : Terminal) : (line t).toList = element t ++ ['\n'] := by
  simp [line, element, escapeText]

/-- The name of a class has no bracket, slash or line feed that would end or close its tag. -/
theorem category_plain (t : Terminal) :
    (∀ c ∈ t.category.toList, c ≠ '>' ∧ c ≠ '\n') ∧ t.category.toList.head? ≠ some '/' := by
  have hall : ∀ w ∈ ["keyword", "symbol", "integerConstant", "stringConstant", "identifier"],
      w.toList.all (fun c => c ≠ '>' && c ≠ '\n') = true ∧ w.toList.head? ≠ some '/' := by decide
  have ht := hall t.category (by cases t <;> simp [Terminal.category])
  simpa only [List.all_eq_true, Bool.and_eq_true, decide_eq_true_eq] using ht

/-- **An element is read back.** -/
theorem readElement_element (t : Terminal) :
    readElement (element t) = (t.category, t.spelling) := by
  have htag : ((element t).drop 1).takeWhile (· ≠ '>') = t.category.toList := by
    rw [element, List.drop_one, List.tail_cons, List.takeWhile_append_of_pos fun c hc => by
      simpa using ((category_plain t).1 c hc).1]
    simp
  have hbody : ((element t).drop (t.category.toList.length + 3)).takeWhile (· ≠ '<') =
      t.spelling.toList.flatMap escape ++ [' '] := by
    rw [element, List.drop_succ_cons, List.drop_length_add_append, List.drop_succ_cons,
      List.drop_succ_cons, List.drop_zero]
    rw [List.takeWhile_append_of_pos fun c hc => by simpa using ne_of_mem_escape hc]
    simp
  rw [readElement, htag, hbody, List.dropLast_concat, unescape_flatMap_escape,
    String.ofList_toList, String.ofList_toList]

theorem closes_element (t : Terminal) : closes (element t) = false := by
  have hc := (category_plain t).2
  rw [element]
  cases hs : t.category.toList with
  | nil => rfl
  | cons c cs =>
    rw [hs] at hc
    rw [List.cons_append, closes]
    rintro _ _ ⟨⟩
    exact hc rfl

theorem lineFeed_notMem_element {t : Terminal} (h : '\n' ∉ t.spelling.toList) :
    '\n' ∉ element t := by
  have hc : '\n' ∉ t.category.toList := fun hm => ((category_plain t).1 _ hm).2 rfl
  simp [element, hc, lineFeed_notMem_escape h]

/-- **A listing of terminals**, between its first and its last line. -/
def body (ts : List Terminal) : String :=
  String.join (ts.map line)

theorem toList_body_cons (t : Terminal) (ts : List Terminal) :
    (body (t :: ts)).toList = element t ++ '\n' :: (body ts).toList := by
  simp [body, String.join_cons, toList_line]

/-- **The lines of a listing** are its elements. -/
theorem lines_body {ts : List Terminal} (h : ∀ t ∈ ts, '\n' ∉ t.spelling.toList)
    (rest : List Char) :
    Text.lines ((body ts).toList ++ rest) = ts.map element ++ Text.lines rest := by
  induction ts with
  | nil => rfl
  | cons t ts ih =>
    obtain ⟨ht, h⟩ := List.forall_mem_cons.1 h
    rw [toList_body_cons, List.append_assoc, List.cons_append,
      Text.lines_append (lineFeed_notMem_element ht), ih h]
    rfl

/-- **A listing is read back.** -/
theorem read_body {ts : List Terminal} (h : ∀ t ∈ ts, '\n' ∉ t.spelling.toList) :
    read (opening ++ body ts ++ closing) = ts.map fun t => (t.category, t.spelling) := by
  have hopening : opening.toList = "<tokens>".toList ++ ['\n'] := by decide
  have hclosing : Text.lines closing.toList = ["</tokens>".toList, []] := by decide
  have hlines : Text.lines (opening ++ body ts ++ closing).toList =
      "<tokens>".toList :: (ts.map element ++ ["</tokens>".toList, []]) := by
    rw [String.toList_append, String.toList_append, hopening, List.append_assoc, List.append_assoc,
      List.singleton_append, Text.lines_append (by decide), lines_body h, hclosing]
  have helement : ∀ l ∈ ts.map element, (!closes l) = true := by
    intro l hl
    obtain ⟨t, -, rfl⟩ := List.mem_map.1 hl
    rw [closes_element]
    rfl
  rw [read, hlines, List.tail_cons, List.takeWhile_append_of_pos helement,
    List.takeWhile_cons_of_neg (by decide), List.append_nil, List.map_map]
  exact List.map_congr_left fun t _ => readElement_element t

end Listing

/-! ## Writing -/

/-- **The sink with a text added.** -/
def Sink.added (s : Sink) (text : String) : Sink :=
  { s with text := s.text ++ text }

@[simp] theorem Sink.added_added (s : Sink) (text text' : String) :
    (s.added text).added text' = s.added (text ++ text') := by
  simp [added, String.append_assoc]

/-- The items are tokens, as many as they are. -/
theorem exists_map_ok {items : List (Except CompileError Token)} (h : ∀ e, .error e ∉ items) :
    ∃ tokens : List Token, items = tokens.map .ok := by
  induction items with
  | nil => exact ⟨[], rfl⟩
  | cons item items ih =>
    cases item with
    | error e => exact absurd List.mem_cons_self (h e)
    | ok token =>
      obtain ⟨tokens, rfl⟩ := ih fun e he => h e (List.mem_cons_of_mem _ he)
      exact ⟨token :: tokens, rfl⟩

theorem terminalsOf_map_ok (tokens : List Token) :
    terminalsOf (tokens.map .ok) = tokens.map Token.terminal := by
  induction tokens with
  | nil => rfl
  | cons token tokens ih =>
    rw [List.map_cons, List.map_cons, ← ih]
    rfl

namespace Listing

variable {items : List (Except CompileError Token)} {s : Sink}

theorem put_eq_ok (h : s.limit = none) (text : String) :
    put s text = (.ok (), s.added text) := by
  rw [put, Sink.write, if_pos (by rw [Sink.fits, h])]
  rfl

/-- **Tokens are written** line by line. -/
theorem writeItems_append (h : s.limit = none) (tokens : List Token)
    (rest : List (Except CompileError Token)) :
    writeItems (tokens.map .ok ++ rest) s =
      writeItems rest (s.added (body (tokens.map Token.terminal))) := by
  induction tokens generalizing s with
  | nil => simp [body, Sink.added]
  | cons token tokens ih =>
    rw [List.map_cons, List.cons_append, writeItems, put_eq_ok h]
    simp only [ih (s := s.added (line token.terminal)) h, Sink.added_added]
    simp [body, String.join_cons]

/-- **A listing without bad pieces is written whole.** -/
theorem write_eq_ok (hs : s.limit = none) (h : ∀ e, .error e ∉ items) :
    write items s =
      (.ok (), s.added (opening ++ body (terminalsOf items) ++ closing)) := by
  obtain ⟨tokens, rfl⟩ := exists_map_ok h
  have hitems := writeItems_append (s := s.added opening) hs tokens []
  rw [List.append_nil] at hitems
  rw [write, put_eq_ok hs, terminalsOf_map_ok]
  simp only [hitems, writeItems, Sink.added_added]
  rw [put_eq_ok (s := s.added _) hs, Sink.added_added]

/-- **A listing breaks off at the first bad piece.** -/
theorem write_eq_error (hs : s.limit = none) {k : Nat} {e : CompileError}
    (hk : items[k]? = some (.error e)) (h : ∀ e', .error e' ∉ items.take k) :
    write items s =
      (.error e, s.added (opening ++ body (terminalsOf (items.take k)))) := by
  obtain ⟨tokens, htokens⟩ := exists_map_ok h
  obtain ⟨hlt, hget⟩ := List.getElem?_eq_some_iff.1 hk
  have hitems : items = tokens.map .ok ++ .error e :: items.drop (k + 1) := by
    rw [← htokens, ← hget, ← List.drop_eq_getElem_cons hlt, List.take_append_drop]
  rw [htokens, terminalsOf_map_ok, hitems, write, put_eq_ok hs]
  simp only [writeItems_append (s := s.added opening) hs, writeItems, Sink.added_added]

end Listing

/-! ## Listings of sources -/

/-- No token has a line feed in its text. -/
theorem Terminal.Spelled.lineFeed_notMem {t : Terminal} (h : t.Spelled) :
    '\n' ∉ t.spelling.toList := by
  intro hmem
  cases t with
  | keyword k =>
    have hall : ∀ k ∈ Keyword.all, (k.text.toList.all (· ≠ '\n')) = true := by decide
    have hk := List.all_eq_true.1 (hall k (by cases k <;> decide)) _ hmem
    exact absurd hk (by decide)
  | symbol c =>
    rw [spelling, String.toList_singleton, List.mem_singleton] at hmem
    subst hmem
    exact absurd h (by decide)
  | integer digits => exact absurd (h.2.1 _ hmem) (by decide)
  | text body => exact absurd (h _ hmem).1 (by decide)
  | identifier name => exact absurd (h.1.2 _ hmem) (by decide)

theorem Keyword.text_injective {k k' : Keyword} (h : k.text = k'.text) : k = k' := by
  have hk : ofText? k.text = ofText? k'.text := congrArg ofText? h
  rw [ofText?_text, ofText?_text] at hk
  exact Option.some.inj hk

/-- **A terminal is told by its class and its text.** -/
theorem Terminal.eq_of_category_of_spelling {t u : Terminal} (hc : t.category = u.category)
    (hs : t.spelling = u.spelling) : t = u := by
  cases t with
  | keyword k =>
    cases u with
    | keyword k' => exact congrArg keyword (Keyword.text_injective hs)
    | _ => simp [category] at hc
  | symbol c =>
    cases u with
    | symbol c' => simpa [spelling, String.ext_iff] using hs
    | _ => simp [category] at hc
  | integer digits =>
    cases u with
    | integer digits' => exact congrArg integer hs
    | _ => simp [category] at hc
  | text body =>
    cases u with
    | text body' => exact congrArg text hs
    | _ => simp [category] at hc
  | identifier name =>
    cases u with
    | identifier name' => exact congrArg identifier hs
    | _ => simp [category] at hc

theorem Terminal.map_parts_injective {ts us : List Terminal}
    (h : ts.map (fun t => (t.category, t.spelling)) = us.map fun t => (t.category, t.spelling)) :
    ts = us :=
  (List.map_inj_right fun _ _ h =>
    eq_of_category_of_spelling (congrArg Prod.fst h) (congrArg Prod.snd h)).1 h

/-- **The listing of a source without bad pieces is read back.** -/
theorem read_listTokens {source : String} (h : ∀ e, .error e ∉ scan (Comment.strip source)) :
    ∃ text, listTokens source = .ok text ∧ Listing.read text =
      (terminalsOf (scan (Comment.strip source))).map fun t => (t.category, t.spelling) := by
  refine ⟨Listing.opening ++ Listing.body (terminalsOf (scan (Comment.strip source))) ++
    Listing.closing, ?_, ?_⟩
  · rw [listTokens, Listing.write_eq_ok rfl h]
    exact congrArg Except.ok String.empty_append
  · exact Listing.read_body fun t ht => (Terminal.spelled_of_mem_scan ht).lineFeed_notMem

/-- **A listing loses nothing.** From the listing of a source without bad pieces the class and the
text of each token are read back, so that two sources have the same listing only if they have the
same tokens. A source with a bad piece is listed up to the first one, which is reported. -/
theorem listTokens_lossless :
    (∀ source, (∀ e, .error e ∉ scan (Comment.strip source)) →
      ∃ text, listTokens source = .ok text ∧ Listing.read text =
        (terminalsOf (scan (Comment.strip source))).map fun t => (t.category, t.spelling)) ∧
    (∀ source source', (∀ e, .error e ∉ scan (Comment.strip source)) →
      (∀ e, .error e ∉ scan (Comment.strip source')) → listTokens source = listTokens source' →
      terminalsOf (scan (Comment.strip source)) = terminalsOf (scan (Comment.strip source'))) ∧
    ∀ source k e (sink : Sink), (scan source)[k]? = some (.error e) →
      (∀ e', .error e' ∉ (scan source).take k) → sink.limit = none →
      Listing.write (scan source) sink = (.error e, sink.added
        (Listing.opening ++ Listing.body (terminalsOf ((scan source).take k)))) := by
  refine ⟨fun source h => read_listTokens h, fun source source' h h' heq => ?_,
    fun source k e sink hk h hs => Listing.write_eq_error hs hk h⟩
  obtain ⟨text, ht, hread⟩ := read_listTokens h
  obtain ⟨text', ht', hread'⟩ := read_listTokens h'
  rw [ht, ht'] at heq
  rw [Except.ok.inj heq, hread'] at hread
  exact (Terminal.map_parts_injective hread).symm

/-- Strings, of which one looks like markup and one is empty, and a comment. -/
def markupSample : String := "\" &lt; </tokens>\" < \"\" // x\n é\"&"

theorem listTokens_lossless_sample :
    (∃ text, listTokens markupSample = .ok text ∧ Listing.read text =
      [("stringConstant", " &lt; </tokens>"), ("symbol", "<"), ("stringConstant", ""),
        ("identifier", "é\""), ("symbol", "&")]) ∧
    Listing.write (scan "let 32768 ;") {} =
      (.error (.lexical 1 (.integerTooLarge "32768")),
        Sink.added {} "<tokens>\n<keyword> let </keyword>\n") := by
  have hscan : scan (Comment.strip markupSample) =
      [.ok ⟨.text " &lt; </tokens>", ⟨0, 17, 1⟩⟩, .ok ⟨.symbol '<', ⟨18, 1, 1⟩⟩,
        .ok ⟨.text "", ⟨20, 2, 1⟩⟩, .ok ⟨.identifier "é\"", ⟨26, 3, 2⟩⟩,
        .ok ⟨.symbol '&', ⟨29, 1, 2⟩⟩] := by decide +kernel
  have hbad : scan "let 32768 ;" = [.ok ⟨.keyword .let, ⟨0, 3, 1⟩⟩,
      .error (.lexical 1 (.integerTooLarge "32768")), .ok ⟨.symbol ';', ⟨10, 1, 1⟩⟩] := by
    decide +kernel
  obtain ⟨hread, -, hbreak⟩ := listTokens_lossless
  refine ⟨?_, ?_⟩
  · obtain ⟨text, ht, hr⟩ := hread markupSample (by simp [hscan])
    rw [hscan] at hr
    exact ⟨text, ht, hr.trans (by decide)⟩
  · refine (hbreak _ 1 (.lexical 1 (.integerTooLarge "32768")) {} (by rw [hbad]; rfl)
      (by simp [hbad]) rfl).trans ?_
    rw [hbad]
    exact congrArg (Prod.mk _ ∘ Sink.added {}) (by decide)

end JackStack
