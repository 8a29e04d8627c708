import ServeModel.ZarrIo.Planner

namespace ZarrIo

inductive ZarrFormat
  | v2 | v3
  deriving DecidableEq

inductive ChunkKeyEncoding
  | v2 | default
  deriving DecidableEq

inductive ChunkKeySeparator
  | dot | slash
  deriving DecidableEq

def ChunkKeySeparator.asChar : ChunkKeySeparator → Char
  | dot => '.'
  | slash => '/'

structure ZarrTargetConfig where
  zarrFormat : ZarrFormat
  chunkKeyEncoding : ChunkKeyEncoding
  chunkKeySeparator : ChunkKeySeparator
  deriving DecidableEq

def TupleChunkKey.render (separator : Char) (key : TupleChunkKey) : String :=
  String.intercalate (String.singleton separator) (key.map toString)

def ZarrTargetConfig.chunkKeyPath (t : ZarrTargetConfig) (key : TupleChunkKey) : String :=
  match t.zarrFormat with
  | .v2 => TupleChunkKey.render t.chunkKeySeparator.asChar key
  | .v3 => "c/" ++ TupleChunkKey.render '/' key

def ZarrTargetConfig.chunkPathForTupleKey (t : ZarrTargetConfig) (arrayName : String) (key : TupleChunkKey) : String :=
  arrayName ++ "/" ++ t.chunkKeyPath key

structure MetadataPathSpec where
  rootPaths : List String
  perArrayPaths : List String

def ZarrTargetConfig.metadataPaths (t : ZarrTargetConfig) : MetadataPathSpec :=
  match t.zarrFormat with
  | .v2 => { rootPaths := [".zgroup", ".zattrs", ".zmetadata"], perArrayPaths := [".zarray", ".zattrs"] }
  | .v3 => { rootPaths := ["zarr.json"], perArrayPaths := ["zarr.json"] }

end ZarrIo
