import Brewery.Source.Kind
import Brewery.Text.Letter

/-!
Where artifacts go: beside their source, under its stem and the extension of the stage. A
stage that exposes its artifact drops one underscore from the front of the stem. Building
and removing go by the same rule.
-/

namespace Brewery

def exposedStem (stem : Text) : Text := (Text.dropPrefix? ['_'] stem).getD stem

namespace Path

/-- The path of the artifact that a stage makes of a source. -/
def artifact (source : Path) (stage : Stage) : Path :=
  let stem := source.stem?.getD []
  let stem := if stage.exposes then exposedStem stem else stem
  let name : Path := ⟨stem ++ '.' :: stage.outputExtension⟩
  match source.parent? with
  | some parent => parent.join name
  | none => name

/-- The artifacts of a chain, each made of the one before it. -/
def artifacts (source : Path) : List Stage → List Path
  | [] => []
  | stage :: rest => source.artifact stage :: (source.artifact stage).artifacts rest

/-- The last artifact of a chain, or the source itself when the chain is empty. -/
def finalArtifact (source : Path) (chain : List Stage) : Path :=
  chain.foldl Path.artifact source

/-- What goes when a source of a kind goes: the artifact of its first stage and no other. -/
def cascadeTarget? (source : Path) (kind : SourceKind) : Option Path :=
  kind.chain.head?.map source.artifact

/-- The name under which the module of a data literal exports its value. -/
def exportName (source : Path) : Text :=
  let name := (exposedStem (source.stem?.getD [])).map fun c =>
    if Text.isAlphanumeric c || c = '_' || c = '$' then c else '_'
  match name with
  | [] => ['_']
  | first :: _ => if first.isDigit then '_' :: name else name

end Path
end Brewery
