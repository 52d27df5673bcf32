import Mathlib.Logic.Relation
import Shellwright.Proofs.Compile.Joining
import Shellwright.Proofs.Token.Quotes

/-!
# Layout

How a source is laid out decides where its tokens stand and nothing else. Two sources with the same
kinds of tokens have the same script or the same error, and an error that is placed blames in each
of them the token with the same index.

## Main definitions

* `Alike`: the results of two compilations that differ in positions only.

## Main statements

* `Token.exists_tokenize_of_respaced`: blanks may be replaced by blanks at any number of places.
* `compile_alike`: compiling two sources whose tokens have the same kinds.
-/
namespace Shellwright

open Token (Kind Stream tokenize)
open Relation (ReflTransGen)

variable {ts us : List Token}

namespace Token

theorem exists_tokenize_of_respaced {s t : String} (h : ReflTransGen Respaced s t)
    (hs : tokenize s = .ok ts) :
    ∃ us, tokenize t = .ok us ∧ ts.map (·.kind) = us.map (·.kind) := by
  induction h with
  | refl => exact ⟨ts, hs, rfl⟩
  | tail _ hstep ih =>
    obtain ⟨us, hus, hk⟩ := ih
    obtain ⟨vs, hvs, hk'⟩ := hstep.exists_tokenize hus
    exact ⟨vs, hvs, hk.trans hk'⟩

/-- Up to the end of the input, the position with an index is that of the token with this index. -/
theorem exists_positionAt {s : String} (h : tokenize s = .ok ts) {i : Nat}
    (hi : i ≤ (Stream.ofList ts).kinds.length) :
    ∃ t, ts[i]? = some t ∧ (Stream.ofList ts).positionAt i = t.position := by
  obtain ⟨xs, rfl, hxs, -⟩ := exists_scan_append h
  generalize Position.start.after (body s) = stop at hi ⊢
  have hstream : Stream.ofList (xs ++ [⟨.eof, stop⟩]) = ⟨xs, stop⟩ := by
    rw [Stream.ofList_append hxs (by simp)]
    simp [Stream.ofList]
  rw [hstream] at hi ⊢
  rw [Stream.kinds, List.length_map] at hi
  rcases Nat.lt_or_eq_of_le hi with hlt | rfl
  · have hget : xs[i]? = some xs[i] := List.getElem?_eq_getElem hlt
    exact ⟨xs[i], by rw [List.getElem?_append_left hlt, hget], by simp [Stream.positionAt, hget]⟩
  · exact ⟨⟨.eof, stop⟩, by simp, by simp [Stream.positionAt]⟩

end Token

/-- Two compilations that end in the same way: with the same script, with the same fault, or with
the same syntax error at the tokens of one index in `ts` and in `us`. -/
inductive Alike (ts us : List Token) :
    Except CompileError String → Except CompileError String → Prop where
  | script (text : String) : Alike ts us (.ok text) (.ok text)
  | misread {i : Nat} {t u : Token} (cause : SyntaxError.Cause) (left : ts[i]? = some t)
      (right : us[i]? = some u) :
      Alike ts us (.error (.parse ⟨cause, t.position⟩)) (.error (.parse ⟨cause, u.position⟩))
  | fault (f : Fault) : Alike ts us (.error (.emit f)) (.error (.emit f))

theorem compile_of_tokenize {s : String} (h : tokenize s = .ok ts) : compile s =
    (Program.ofStream (.ofList ts)).mapError .parse >>= fun p => p.emit.mapError .emit := by
  rw [compile, h]
  rfl

/-- The stages behind the tokens see their kinds; positions only go into a syntax error. -/
theorem alike_of_kinds {s t : String} (hs : tokenize s = .ok ts) (ht : tokenize t = .ok us)
    (hk : ts.map (·.kind) = us.map (·.kind)) : Alike ts us (compile s) (compile t) := by
  have hkinds : (Stream.ofList us).kinds = (Stream.ofList ts).kinds := by
    rw [Stream.kinds_ofList, Stream.kinds_ofList, hk]
  rw [compile_of_tokenize hs, compile_of_tokenize ht, Program.ofStream, Program.ofStream, hkinds]
  cases hp : Program.ofKinds (Stream.ofList ts).kinds with
  | ok p =>
    cases he : p.emit with
    | ok text => simpa [bind, Except.bind, he] using Alike.script text
    | error f => simpa [bind, Except.bind, he] using Alike.fault f
  | error e =>
    have hle : (Stream.ofList ts).kinds.length - e.rest.length ≤ (Stream.ofList ts).kinds.length :=
      Nat.sub_le _ _
    obtain ⟨x, hx, hpx⟩ := Token.exists_positionAt hs hle
    rw [← hkinds] at hle
    obtain ⟨y, hy, hpy⟩ := Token.exists_positionAt ht hle
    rw [hkinds] at hy hpy
    simpa [bind, Except.bind, hpx, hpy] using Alike.misread e.cause hx hy

/-- A source `t` whose tokens have the same kinds as those of `s` compiles as `s` does: to the same
script, or to the same error in the same stage, at the token with the same index if it has a place.
It is such a source if it is `s` with blanks outside all strings replaced by other blanks. -/
theorem compile_alike {s t : String} (hs : tokenize s = .ok ts) :
    (∀ us, tokenize t = .ok us → ts.map (·.kind) = us.map (·.kind) →
      Alike ts us (compile s) (compile t)) ∧
    (ReflTransGen Token.Respaced s t → ∃ us, tokenize t = .ok us ∧
      ts.map (·.kind) = us.map (·.kind) ∧ Alike ts us (compile s) (compile t)) := by
  refine ⟨fun us ht hk => alike_of_kinds hs ht hk, fun h => ?_⟩
  obtain ⟨us, ht, hk⟩ := Token.exists_tokenize_of_respaced h hs
  exact ⟨us, ht, hk, alike_of_kinds hs ht hk⟩

/-- A name is missing before the second token, wherever blanks put that token. -/
theorem compile_alike_missing_name :
    compile "val = 1" = .error (.parse ⟨.expected .identifier (.symbol '='), ⟨1, 5⟩⟩) ∧
    compile "val\n= 1" = .error (.parse ⟨.expected .identifier (.symbol '='), ⟨2, 1⟩⟩) ∧
    ∃ ts us vs, tokenize "val = 1" = .ok ts ∧ tokenize "val=1" = .ok us ∧
      tokenize "val\n= 1" = .ok vs ∧ Alike ts us (compile "val = 1") (compile "val=1") ∧
        Alike ts vs (compile "val = 1") (compile "val\n= 1") := by
  have hspace : Text.isBlank ' ' = true := by decide
  have hnewline : Text.isBlank '\n' = true := by decide
  have hspaced : Token.Respaced ("val" ++ " " ++ "= 1") ("val" ++ "\n" ++ "= 1") :=
    .intro (by decide) (by decide) (by simpa using hspace) (by decide) (by simpa using hnewline)
  have hs : tokenize "val = 1" = .ok [⟨.keyword .val, ⟨1, 1⟩⟩, ⟨.symbol '=', ⟨1, 5⟩⟩,
      ⟨.number "1", ⟨1, 7⟩⟩, ⟨.eof, ⟨1, 8⟩⟩] := by decide +kernel
  have ht : tokenize "val=1" = .ok [⟨.keyword .val, ⟨1, 1⟩⟩, ⟨.symbol '=', ⟨1, 4⟩⟩,
      ⟨.number "1", ⟨1, 5⟩⟩, ⟨.eof, ⟨1, 6⟩⟩] := by decide +kernel
  refine ⟨by decide +kernel, by decide +kernel, ?_⟩
  have hclose := (compile_alike hs).1 _ ht rfl
  obtain ⟨vs, hvs, -, hapart⟩ := (compile_alike hs).2 (.single hspaced)
  exact ⟨_, _, vs, hs, ht, hvs, hclose, hapart⟩

end Shellwright
