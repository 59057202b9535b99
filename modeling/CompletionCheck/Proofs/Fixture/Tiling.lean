import CompletionCheck.Proofs.Fixture.Derivation
import CompletionCheck.Proofs.Text.Spans
import CompletionCheck.Text.Find

/-!
# The tree of a payload tiles it

A tree says of a text where its parts are, so it is right if the parts are what they are called and
nothing of the text is left out.  `TokenNode` says of one token what its node has to be, by the
characters that its spans cover; `Tiles` says that tokens follow each other with one `;` between
them, up to the end.  Neither knows the reader of tokens or the grammar.

That spans are nested is no matter of payloads.  Whatever a pattern makes of a place, its nodes lie
in the text that it has taken, one behind the other, and end between characters (`Derives.laid`).
The induction is on the derivation, and what carries it over a sequence is that the second pattern
begins at the byte where the first has left off.
-/

namespace CompletionCheck.Fixture

open Text (byteLength Covers IsBoundary)

/-! ## Nested spans -/

/-- Nodes lie between two places, and none of them begins before the one in front of it ends. -/
inductive InTurn : Nat → List Node → Nat → Prop
  | none {n m : Nat} : n ≤ m → InTurn n [] m
  | next {n start stop m : Nat} {part : Part} {children rest : List Node} :
      n ≤ start → start ≤ stop → InTurn stop rest m →
      InTurn n (.mk part start stop children :: rest) m

/-- The span of a node ends between characters, its children lie inside it, one behind the other,
and they are nested as well. -/
inductive Nested (text : List Char) : Node → Prop
  | node {part : Part} {start stop : Nat} {children : List Node} :
      IsBoundary text start → IsBoundary text stop → InTurn start children stop →
      (∀ child ∈ children, Nested text child) → Nested text (.mk part start stop children)

theorem InTurn.append {n m k : Nat} {xs ys : List Node} (hx : InTurn n xs m)
    (hy : InTurn m ys k) : InTurn n (xs ++ ys) k := by
  induction hx with
  | none hle =>
      cases hy with
      | none hle' => exact .none (Nat.le_trans hle hle')
      | next hstart hspan hrest => exact .next (Nat.le_trans hle hstart) hspan hrest
  | next hstart hspan _ ih => exact .next hstart hspan (ih hy)

/-- What a match has taken behind the text `before`: the characters in front of `rest`, in which
its nodes lie. -/
structure Laid (before cs : List Char) (nodes : List Node) (stop : Nat) (rest : List Char) :
    Prop where
  taken : ∃ run, cs = run ++ rest ∧ stop = byteLength before + byteLength run
  inTurn : InTurn (byteLength before) nodes stop
  nested : ∀ node ∈ nodes, Nested (before ++ cs) node

section Laid

variable {before cs ds rest : List Char} {nodes later : List Node} {m stop : Nat}

theorem Laid.nothing (h : byteLength before = stop) : Laid before cs [] stop cs where
  taken := ⟨[], rfl, h.symm⟩
  inTurn := .none (Nat.le_of_eq h)
  nested := fun _ hnode => absurd hnode List.not_mem_nil

theorem Laid.char (c : Char) :
    Laid before (c :: rest) [] (byteLength before + c.utf8Size) rest where
  taken := ⟨[c], rfl, by rw [Text.byteLength_cons, Text.byteLength_nil, Nat.add_zero]⟩
  inTurn := .none (Nat.le_add_right _ _)
  nested := fun _ hnode => absurd hnode List.not_mem_nil

theorem Laid.append {run : List Char} (h : Laid before (run ++ ds) nodes
      (byteLength (before ++ run)) ds) (h' : Laid (before ++ run) ds later stop rest) :
    Laid before (run ++ ds) (nodes ++ later) stop rest := by
  obtain ⟨run', rfl, rfl⟩ := h'.taken
  refine ⟨⟨run ++ run', ?_, ?_⟩, h.inTurn.append h'.inTurn, ?_⟩
  · rw [List.append_assoc]
  · rw [Text.byteLength_append, Text.byteLength_append, Nat.add_assoc]
  · intro node hnode
    rcases List.mem_append.mp hnode with hnode | hnode
    · exact h.nested node hnode
    · have hnested := h'.nested node hnode
      rwa [List.append_assoc] at hnested

theorem Laid.part (h : Laid before cs nodes stop rest) (r : Part) :
    Laid before cs [.mk r (byteLength before) stop nodes] stop rest := by
  obtain ⟨run, rfl, rfl⟩ := h.taken
  have hcovers := Text.covers_of_append before run rest
  refine ⟨⟨run, rfl, rfl⟩, .next (Nat.le_refl _) hcovers.start_le (.none (Nat.le_refl _)), ?_⟩
  intro node hnode
  obtain rfl := List.mem_singleton.mp hnode
  exact .node hcovers.isBoundary_start hcovers.isBoundary_stop h.inTurn h.nested

end Laid

/-- **Whatever a pattern makes of a place lies in the text that it has taken.** -/
theorem Derives.laid {p : Pattern} {n : Nat} {cs : List Char} {outcome : Match}
    (h : Derives p n cs outcome) : ∀ {before nodes stop rest}, byteLength before = n →
      outcome = some (nodes, stop, rest) → Laid before cs nodes stop rest := by
  induction h with
  | char c n cs | any c n cs =>
      rintro before nodes stop rest rfl heq
      cases heq
      exact .char c
  | textStart cs | textEnd n | «unless» _ _ | stop _ _ =>
      intro before nodes stop rest hn heq
      cases heq
      exact .nothing hn
  | notChar | notAny | notTextStart | notTextEnd | notUnless | notFirst | notSecond | notPart =>
      intro before nodes stop rest _ heq
      cases heq
  | seq _ _ ih₁ ih₂ | more _ _ ih₁ ih₂ =>
      rintro before nodes stop rest rfl heq
      cases heq
      have hfirst := ih₁ rfl rfl
      obtain ⟨run, rfl, rfl⟩ := hfirst.taken
      have hsize := Text.byteLength_append before run
      rw [← hsize] at hfirst
      exact hfirst.append (ih₂ hsize rfl)
  | first _ ih =>
      intro before nodes stop rest hn heq
      exact ih hn heq
  | second _ _ _ ih =>
      intro before nodes stop rest hn heq
      exact ih hn heq
  | part _ ih =>
      rintro before nodes stop rest rfl heq
      cases heq
      exact (ih rfl rfl).part _

/-! ## Tokens -/

/-- `TokenNode text start stop cs node`: from `start` to `stop` stands a token with the characters
`cs`, and this is its node.  A token without `!` is a symbol.  Any other is forbidden, and divided
at its first `!` into what leads up to it and the symbol behind it. -/
inductive TokenNode (text : List Char) (start stop : Nat) : List Char → Node → Prop
  | symbol {cs : List Char} : Covers text start stop cs → '!' ∉ cs →
      TokenNode text start stop cs (.mk .token start stop [.mk .symbol start stop []])
  | forbidden {mark : Nat} {lead symbol : List Char} :
      Covers text start mark lead → '!' ∉ lead →
      Covers text mark (mark + 1) ['!'] →
      Covers text (mark + 1) stop symbol →
      TokenNode text start stop (lead ++ '!' :: symbol)
        (.mk .token start stop
          [.mk .forbidden start stop [.mk .lead start mark [], .mk .symbol (mark + 1) stop []]])

/-- `Tiles text start stop texts nodes`: tokens with these texts and these nodes follow each other
from `start` to `stop`, with a `;` between any two of them. -/
inductive Tiles (text : List Char) : Nat → Nat → List (List Char) → List Node → Prop
  | last {start stop : Nat} {cs : List Char} {node : Node} :
      TokenNode text start stop cs node → Tiles text start stop [cs] [node]
  | next {start mid stop : Nat} {cs : List Char} {node : Node} {texts : List (List Char)}
      {nodes : List Node} :
      TokenNode text start mid cs node → Covers text mid (mid + 1) [';'] →
      Tiles text (mid + 1) stop texts nodes → Tiles text start stop (cs :: texts) (node :: nodes)

section Tokens

variable {text before after : List Char} {start : Nat}

theorem Tiles.length_eq {stop : Nat} {texts : List (List Char)} {nodes : List Node}
    (h : Tiles text start stop texts nodes) : nodes.length = texts.length := by
  induction h with
  | last => rfl
  | next _ _ _ ih => rw [List.length_cons, List.length_cons, ih]

theorem tokenNode_node {t : Token} (ht : t.Proper) (htext : text = before ++ (t.text ++ after))
    (hstart : byteLength before = start) :
    TokenNode text start (start + byteLength t.text) t.text (t.node start) := by
  cases t with
  | symbol cs => exact .symbol ⟨before, after, htext, hstart, rfl⟩ ht.divided
  | forbidden lead symbol =>
      have hmarked : byteLength ['!'] = 1 := rfl
      have hlead : Covers text start (start + byteLength lead) lead :=
        ⟨before, '!' :: (symbol ++ after), by simp [htext, Token.text], hstart, rfl⟩
      have hmark : Covers text (start + byteLength lead) (start + byteLength lead + 1) ['!'] := by
        refine ⟨before ++ lead, symbol ++ after, by simp [htext, Token.text], ?_, ?_⟩
        · rw [Text.byteLength_append, hstart]
        · rw [hmarked]
      have hsymbol : Covers text (start + byteLength lead + 1)
          (start + byteLength (Token.forbidden lead symbol).text) symbol := by
        refine ⟨before ++ (lead ++ ['!']), after, by simp [htext, Token.text], ?_, ?_⟩
        · rw [Text.byteLength_append, Text.byteLength_append, hstart, hmarked, Nat.add_assoc]
        · rw [byteLength_forbidden]
          omega
      exact .forbidden hlead ht.divided hmark hsymbol

theorem tiles_tokenNodes (ts : List Token) : ∀ {t : Token} {before : List Char} {start : Nat},
    t.Proper → (∀ u ∈ ts, u.Proper) → text = before ++ (t.text ++ following ts) →
    byteLength before = start →
    Tiles text start (byteLength text) ((t :: ts).map Token.text)
      (tokenNodes start (t :: ts)) := by
  induction ts with
  | nil =>
      intro t before start ht _ htext hstart
      have hstop : byteLength text = start + byteLength t.text := by
        rw [htext, following_nil, List.append_nil, Text.byteLength_append, hstart]
      rw [hstop]
      exact .last (tokenNode_node ht htext hstart)
  | cons u ts ih =>
      intro t before start ht hts htext hstart
      obtain ⟨hu, hts⟩ := List.forall_mem_cons.mp hts
      have hbroken : byteLength [';'] = 1 := rfl
      have hbreak : Covers text (start + byteLength t.text) (start + byteLength t.text + 1)
          [';'] := by
        refine ⟨before ++ t.text, u.text ++ following ts, by simp [htext], ?_, ?_⟩
        · rw [Text.byteLength_append, hstart]
        · rw [hbroken]
      have hbefore : byteLength (before ++ (t.text ++ [';'])) = start + byteLength t.text + 1 := by
        rw [Text.byteLength_append, Text.byteLength_append, hstart, hbroken, Nat.add_assoc]
      have htext' : text = before ++ (t.text ++ [';']) ++ (u.text ++ following ts) := by
        simp [htext]
      exact .next (tokenNode_node ht htext hstart) hbreak (ih hu hts htext' hbefore)

end Tokens

/-! ## The whole tree -/

/-- **The tree of a payload tiles it.**  The grammar makes one thing of every payload: one tree, and
nothing left over.  The children of its root are one token more than there are `;` in the payload,
and an empty end behind them.  The tokens follow each other from the first byte to the last with
one `;` between any two; their texts hold no `;`, and joined by it they are the payload.  Each token
is a symbol if there is no `!` in it, and forbidden from its first `!` on if there is.  And all spans
of the tree are nested, and end between characters. -/
theorem tree_tiles (payload : List Char) :
    (∀ outcome, Derives (.part .payload) 0 payload outcome ↔
      outcome = some ([tree payload], byteLength payload, [])) ∧
    Nested payload (tree payload) ∧
    ∃ texts nodes, tree payload = .mk .payload 0 (byteLength payload)
        (nodes ++ [.mk .endOfInput (byteLength payload) (byteLength payload) []]) ∧
      Tiles payload 0 (byteLength payload) texts nodes ∧
      nodes.length = payload.count ';' + 1 ∧
      [';'].intercalate texts = payload ∧
      ∀ text ∈ texts, ';' ∉ text := by
  have hderives := derives_tree payload
  refine ⟨?_, ?_, (tokens payload).map Token.text, tokenNodes 0 (tokens payload), rfl, ?_⟩
  · intro outcome
    constructor
    · intro h
      exact h.unique hderives
    · rintro rfl
      exact hderives
  · exact (hderives.laid Text.byteLength_nil rfl).nested _ (List.mem_singleton_self _)
  · have htexts := map_text_tokens payload
    obtain ⟨t, ts, htokens, hpayload⟩ := exists_tokens_eq_cons payload
    have hproper : ∀ u ∈ t :: ts, u.Proper := fun u hu => proper_of_mem_tokens (htokens ▸ hu)
    obtain ⟨ht, hts⟩ := List.forall_mem_cons.mp hproper
    have hwhole : payload = [] ++ (t.text ++ following ts) := hpayload
    have htiles := tiles_tokenNodes ts ht hts hwhole Text.byteLength_nil
    rw [← htokens] at htiles
    refine ⟨htiles, ?_, ?_, ?_⟩
    · rw [htiles.length_eq, htexts, Text.length_splitOn]
    · rw [htexts, List.intercalate_splitOn]
    · intro text htext
      rw [htexts] at htext
      exact Text.not_mem_of_mem_splitOn htext

/-- A character of two bytes, and an empty token behind the last `;`. -/
example : tree "é!x;".toList = .mk .payload 0 5
    [.mk .token 0 4 [.mk .forbidden 0 4 [.mk .lead 0 2 [], .mk .symbol 3 4 []]],
      .mk .token 5 5 [.mk .symbol 5 5 []], .mk .endOfInput 5 5 []] := by
  rfl

end CompletionCheck.Fixture
