import NodeFlow.Json.Basic

/-!
# The standard graph

The graph that is loaded when no document is given: a checkpoint, two texts, a sampler, a decoder
and an image to save.

Main results:

- Definition `standardGraph`.
-/

namespace NodeFlow

namespace StandardGraph

/-- An input that holds a link. -/
def input (name type : String) (link : Int) : Json :=
  .obj [("name", .str name), ("type", .str type), ("link", .int link)]

/-- An output at a position with the links that leave it. -/
def output (position : Int) (name : String) (links : List Int) : Json :=
  .obj [("name", .str name), ("type", .str name), ("links", .arr (links.map .int)),
    ("slot_index", .int position)]

/-- A node; lists that are empty are left out. -/
def node (id : Int) (type : String) (order : Int) (inputs outputs values : List Json) : Json :=
  let part (name : String) (xs : List Json) : Members :=
    if xs.isEmpty then [] else [(name, .arr xs)]
  .obj ([("id", .int id), ("type", .str type), ("order", .int order), ("mode", .int 0)] ++
    part "inputs" inputs ++ part "outputs" outputs ++ part "widgets_values" values)

/-- A link. -/
def link (id origin originSlot target targetSlot : Int) (type : String) : Json :=
  .arr [.int id, .int origin, .int originSlot, .int target, .int targetSlot, .str type]

/-- The nodes. -/
def nodes : List Json :=
  [node 7 "CLIPTextEncode" 3 [input "clip" "CLIP" 5] [output 0 "CONDITIONING" [6]]
      [.str "text, watermark"],
    node 6 "CLIPTextEncode" 2 [input "clip" "CLIP" 3] [output 0 "CONDITIONING" [4]]
      [.str "beautiful scenery nature glass bottle landscape, purple galaxy bottle"],
    node 5 "EmptyLatentImage" 1 [] [output 0 "LATENT" [2]] [.int 512, .int 512, .int 1],
    node 3 "KSampler" 4
      [input "model" "MODEL" 1, input "positive" "CONDITIONING" 4,
        input "negative" "CONDITIONING" 6, input "latent_image" "LATENT" 2]
      [output 0 "LATENT" [7]]
      [.int 156680208700286, .bool true, .int 20, .int 8, .str "euler", .str "normal", .int 1],
    node 8 "VAEDecode" 5 [input "samples" "LATENT" 7, input "vae" "VAE" 8]
      [output 0 "IMAGE" [9]] [],
    node 9 "SaveImage" 6 [input "images" "IMAGE" 9] [] [.str "ComfyUI"],
    node 4 "CheckpointLoaderSimple" 0 []
      [output 0 "MODEL" [1], output 1 "CLIP" [3, 5], output 2 "VAE" [8]]
      [.str "v1-5-pruned-emaonly.safetensors"]]

/-- The links. -/
def links : List Json :=
  [link 1 4 0 3 0 "MODEL", link 2 5 0 3 3 "LATENT", link 3 4 1 6 0 "CLIP",
    link 4 6 0 3 1 "CONDITIONING", link 5 4 1 7 0 "CLIP", link 6 7 0 3 2 "CONDITIONING",
    link 7 3 0 8 0 "LATENT", link 8 4 2 8 1 "VAE", link 9 8 0 9 0 "IMAGE"]

end StandardGraph

/-- The document of the standard graph. -/
def standardGraph : Json :=
  .obj [("last_node_id", .int 9), ("last_link_id", .int 9), ("nodes", .arr StandardGraph.nodes),
    ("links", .arr StandardGraph.links), ("groups", .arr []), ("config", .obj []),
    ("extra", .obj []), ("version", .float 0.4)]

end NodeFlow
